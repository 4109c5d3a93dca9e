/-
  HermesPlatform.Production.Sessions

  The versions of one agent and the sessions that work on them: publication,
  rollback, the edits of a version and its status, and the agent's lifecycle.

  A session loads objects and works on these; a column is written only where its
  value differs from the one that was loaded.  Status tests, snapshot writes, row
  locks and commits are steps of their own, and the sessions take their steps in
  any order.  What a session has written and not committed is part of the session.
-/

import HermesPlatform.Lib.Transition
import Mathlib.Data.List.Nodup

namespace HermesPlatform
namespace Production

open Transition

/-! ## Rows -/

/-- `agent_versions.status`. -/
inductive VersionStatus where
  | development
  | testing
  | releaseCandidate
  | published
  | deprecated
deriving DecidableEq, Repr

/-- `agents.status`. -/
inductive AgentStatus where
  | active
  | inactive
  | archived
deriving DecidableEq, Repr

structure Agent where
  status : AgentStatus
  currentVersionId : Option Nat
deriving DecidableEq, Repr

/-- A row of `agent_versions` of the agent; `σ` are the snapshots. -/
structure AgentVersion (σ : Type) where
  id : Nat
  status : VersionStatus
  snapshot : σ

/-- The statuses that a version can be edited in. -/
def VersionStatus.isDraft : VersionStatus → Bool
  | .development | .testing | .releaseCandidate => true
  | .published | .deprecated => false

/-- The `transitions` of `transition_agent_version`. -/
def versionTransitions : VersionStatus → List VersionStatus
  | .development => [.testing]
  | .testing => [.development, .releaseCandidate]
  | .releaseCandidate => [.testing]
  | .published => []
  | .deprecated => []

/-- The `transitions` of `transition_agent`. -/
def agentTransitions : AgentStatus → List AgentStatus
  | .active => [.inactive, .archived]
  | .inactive => [.active, .archived]
  | .archived => []

/-- The stored value of a column after a flush. -/
def write {α : Type} [DecidableEq α] (loaded value stored : α) : α :=
  if value = loaded then stored else value

section Rows

variable {σ : Type}

/-- `UPDATE agent_versions SET ... WHERE id = ...`. -/
def updateRow (id : Nat) (f : AgentVersion σ → AgentVersion σ) (versions : List (AgentVersion σ)) :
    List (AgentVersion σ) :=
  versions.map fun row => if row.id = id then f row else row

theorem mem_updateRow {id : Nat} {f : AgentVersion σ → AgentVersion σ}
    {versions : List (AgentVersion σ)} {row' : AgentVersion σ} :
    row' ∈ updateRow id f versions ↔
      ∃ row ∈ versions, (row.id = id ∧ row' = f row) ∨ (row.id ≠ id ∧ row' = row) := by
  rw [updateRow, List.mem_map]
  refine ⟨?_, ?_⟩
  · rintro ⟨row, hrow, rfl⟩
    refine ⟨row, hrow, ?_⟩
    split
    · rename_i hid
      exact .inl ⟨hid, rfl⟩
    · rename_i hid
      exact .inr ⟨hid, rfl⟩
  · rintro ⟨row, hrow, ⟨hid, rfl⟩ | ⟨hid, rfl⟩⟩
    · exact ⟨row, hrow, if_pos hid⟩
    · exact ⟨row', hrow, if_neg hid⟩

theorem ids_updateRow {id : Nat} {f : AgentVersion σ → AgentVersion σ}
    (hf : ∀ row, (f row).id = row.id) (versions : List (AgentVersion σ)) :
    (updateRow id f versions).map (·.id) = versions.map (·.id) := by
  rw [updateRow, List.map_map]
  refine List.map_congr_left fun row _ => ?_
  simp only [Function.comp_apply]
  split
  · exact hf row
  · rfl

/-- The ids of the published versions but one. -/
def publishedOthers (id : Nat) (versions : List (AgentVersion σ)) : List Nat :=
  (versions.filter fun row => row.id ≠ id ∧ row.status = .published).map (·.id)

end Rows

/-! ## Sessions -/

/-- The paths that lead to a publication: `publish_agent` of the API, of the
    console, `rollback_agent`, and `publish_agent_version`, which tests nothing. -/
inductive Via where
  | api
  | console
  | rollback
  | direct
deriving DecidableEq, Repr

/-- The test of the agent's status. -/
def Via.acceptsAgent (via : Via) (status : AgentStatus) : Bool :=
  match via with
  | .api | .rollback => status = .active
  | .console | .direct => true

/-- The test of the version's status; the console looks for a draft. -/
def Via.acceptsVersion (via : Via) (status : VersionStatus) : Bool :=
  match via with
  | .api => status = .releaseCandidate
  | .console => status.isDraft
  | .rollback => status = .deprecated
  | .direct => true

/-- `update_agent_version` with a snapshot, or `transition_agent_version`. -/
inductive Edit (σ : Type) where
  | snapshot (snapshot : σ)
  | status (target : VersionStatus)

/-- The test of an edit; the request model admits only drafts as targets. -/
def Edit.accepts {σ : Type} (edit : Edit σ) (status : VersionStatus) : Bool :=
  match edit with
  | .snapshot _ => status.isDraft
  | .status target =>
      target.isDraft && (target = status || target ∈ versionTransitions status)

/-- The objects of a session that publishes. -/
structure Release (σ : Type) where
  agent : Agent
  version : AgentVersion σ
  /-- A snapshot that is flushed and not committed. -/
  flushed : Option σ

inductive Phase (σ : Type) where
  | agentLoaded (via : Via) (agent : Agent)
  | tested (via : Via) (release : Release σ)
  | prepared (release : Release σ)
  | agentLocked (release : Release σ)
  | versionLocked (release : Release σ)
  | othersDeprecated (release : Release σ) (others : List Nat)
  | editing (version : AgentVersion σ) (edit : Edit σ)
  /-- `transition_agent` between its status test and the commit. -/
  | transitioning (loaded target : AgentStatus)
  | closed

namespace Phase

variable {σ : Type}

/-- The session holds the row lock of the agent. -/
def holdsAgent : Phase σ → Bool
  | .agentLocked _ | .versionLocked _ | .othersDeprecated _ _ => true
  | _ => false

/-- The versions whose row locks the session holds. -/
def rowLocks : Phase σ → List Nat
  | .prepared release | .agentLocked release =>
      if release.flushed.isSome then [release.version.id] else []
  | .versionLocked release => [release.version.id]
  | .othersDeprecated release others => release.version.id :: others
  | _ => []

end Phase

/-- The next step of a session. -/
inductive Move (σ : Type) where
  | loadVersion (id : Nat)
  /-- What comes between the status test and the locks: a snapshot with the
      resolved capabilities, or none. -/
  | prepare (snapshot : Option σ)
  | lockAgent
  | lockVersion
  | deprecateOthers
  | commit
  /-- An error, a rollback or the end of the process. -/
  | close

/-! ## Writes -/

section Writes

variable {σ : Type} [DecidableEq σ]

/-- The row after the flush of an edit. -/
def Edit.apply (edit : Edit σ) (loaded row : AgentVersion σ) : AgentVersion σ :=
  match edit with
  | .snapshot value => { row with snapshot := write loaded.snapshot value row.snapshot }
  | .status target => { row with status := write loaded.status target row.status }

/-- The row after the first commit of the console, which makes the draft a
    release candidate with a new snapshot. -/
def consoleRow (loaded : AgentVersion σ) (snapshot : σ) (row : AgentVersion σ) : AgentVersion σ :=
  { row with
    snapshot := write loaded.snapshot snapshot row.snapshot
    status := write loaded.status .releaseCandidate row.status }

/-- The published row. -/
def publishRow (release : Release σ) (row : AgentVersion σ) : AgentVersion σ :=
  { row with
    status := write release.version.status .published row.status
    snapshot := release.flushed.getD row.snapshot }

/-- The rows after the commit of a publication. -/
def publishRows (release : Release σ) (others : List Nat) (versions : List (AgentVersion σ)) :
    List (AgentVersion σ) :=
  versions.map fun row =>
    if row.id = release.version.id then publishRow release row
    else if row.id ∈ others then { row with status := .deprecated }
    else row

/-- The agent after the commit of a publication. -/
def publishAgent (release : Release σ) (agent : Agent) : Agent where
  status := write release.agent.status .active agent.status
  currentVersionId :=
    write release.agent.currentVersionId (some release.version.id) agent.currentVersionId

/-- One step of a session; `agentFree` and `rowFree` tell the row locks that no
    other session holds. -/
def Phase.move (agentFree : Bool) (rowFree : Nat → Bool) (agent : Agent)
    (versions : List (AgentVersion σ)) (phase : Phase σ) (m : Move σ) :
    Option (Agent × List (AgentVersion σ) × Phase σ) :=
  match phase, m with
  | .agentLoaded via loaded, .loadVersion id =>
      (versions.find? (·.id = id)).bind fun row =>
        if via.acceptsVersion row.status then
          some (agent, versions, .tested via ⟨loaded, row, none⟩)
        else none
  | .tested .api release, .prepare (some snapshot) =>
      if snapshot = release.version.snapshot then some (agent, versions, .prepared release)
      else if rowFree release.version.id then
        some (agent, versions, .prepared { release with flushed := some snapshot })
      else none
  | .tested .console release, .prepare (some snapshot) =>
      if rowFree release.version.id then
        let version := { release.version with status := .releaseCandidate, snapshot }
        some (agent, updateRow release.version.id (consoleRow release.version snapshot) versions,
          .prepared { release with version })
      else none
  | .tested .api release, .prepare none
  | .tested .rollback release, .prepare none
  | .tested .direct release, .prepare none => some (agent, versions, .prepared release)
  | .prepared release, .lockAgent =>
      if agentFree then some (agent, versions, .agentLocked release) else none
  | .agentLocked release, .lockVersion =>
      if rowFree release.version.id then some (agent, versions, .versionLocked release) else none
  | .versionLocked release, .deprecateOthers =>
      let others := publishedOthers release.version.id versions
      if others.all rowFree then some (agent, versions, .othersDeprecated release others) else none
  | .othersDeprecated release others, .commit =>
      some (publishAgent release agent, publishRows release others versions, .closed)
  | .editing loaded edit, .commit =>
      if rowFree loaded.id then
        some (agent, updateRow loaded.id (edit.apply loaded) versions, .closed)
      else none
  | .transitioning loaded target, .commit =>
      if agentFree then
        some ({ agent with status := write loaded target agent.status }, versions, .closed)
      else none
  | _, .close => some (agent, versions, .closed)
  | _, _ => none

end Writes

/-! ## The system -/

/-- The rows and the sessions. -/
structure Store (σ : Type) where
  agent : Agent
  versions : List (AgentVersion σ)
  sessions : List (Phase σ)

inductive Action (σ : Type) where
  /-- `create_agent_version`. -/
  | create (id : Nat) (snapshot : σ)
  | openRelease (via : Via)
  | openEdit (id : Nat) (edit : Edit σ)
  | openLifecycle (target : AgentStatus)
  | move (i : Nat) (m : Move σ)

section System

variable {σ : Type} [DecidableEq σ]

/-- No session but `i` holds the agent. -/
def Store.agentFree (s : Store σ) (i : Nat) : Bool := (s.sessions.eraseIdx i).all fun p => !p.holdsAgent

/-- No session but `i` holds the row of the version. -/
def Store.rowFree (s : Store σ) (i id : Nat) : Bool :=
  (s.sessions.eraseIdx i).all fun p => id ∉ p.rowLocks

def step (s : Store σ) : Action σ → Option (Store σ)
  | .create id snapshot =>
      if id ∈ s.versions.map (·.id) then none
      else some { s with versions := s.versions ++ [⟨id, .development, snapshot⟩] }
  | .openRelease via =>
      if via.acceptsAgent s.agent.status then
        some { s with sessions := s.sessions ++ [.agentLoaded via s.agent] }
      else none
  | .openEdit id edit =>
      (s.versions.find? (·.id = id)).bind fun row =>
        if edit.accepts row.status then
          some { s with sessions := s.sessions ++ [.editing row edit] }
        else none
  | .openLifecycle target =>
      if target = s.agent.status ∨ target ∈ agentTransitions s.agent.status then
        some { s with sessions := s.sessions ++ [.transitioning s.agent.status target] }
      else none
  | .move i m =>
      (s.sessions[i]?).bind fun phase =>
        (phase.move (s.agentFree i) (s.rowFree i) s.agent s.versions m).map
          fun (agent, versions, phase) =>
            { agent, versions, sessions := s.sessions.set i phase }

/-- A new agent. -/
def NewAgent (s : Store σ) : Prop :=
  s.agent = ⟨.active, none⟩ ∧ s.versions = [] ∧ s.sessions = []

def system (σ : Type) [DecidableEq σ] : System (Store σ) (Action σ) := ⟨NewAgent, step⟩

end System

/-! ## What a step of a session can do -/

namespace Phase

variable {σ : Type}

/-- The versions among the objects of the session. -/
def versionIds : Phase σ → List Nat
  | .tested _ release | .prepared release | .agentLocked release | .versionLocked release
  | .othersDeprecated release _ => [release.version.id]
  | .editing version _ => [version.id]
  | .agentLoaded _ _ | .transitioning _ _ | .closed => []

end Phase

section Cases

variable {σ : Type} [DecidableEq σ]

/-- All a step of a session can do. -/
inductive MoveCases (agentFree : Bool) (agent : Agent) (versions : List (AgentVersion σ))
    (phase : Phase σ) (m : Move σ) : Agent → List (AgentVersion σ) → Phase σ → Prop where
  /-- Nothing is committed, and the agent is not locked. -/
  | idle {phase' : Phase σ} (hlock : phase'.holdsAgent = false)
      (hedit : ∀ loaded edit, phase' ≠ .editing loaded edit)
      (hids : ∀ id ∈ phase'.versionIds, id ∈ phase.versionIds ∨ id ∈ versions.map (·.id)) :
      MoveCases agentFree agent versions phase m agent versions phase'
  | console {release : Release σ} {snapshot : σ} (hphase : phase = .tested .console release)
      (hmove : m = .prepare (some snapshot)) :
      MoveCases agentFree agent versions phase m agent
        (updateRow release.version.id (consoleRow release.version snapshot) versions)
        (.prepared { release with
          version := { release.version with status := .releaseCandidate, snapshot } })
  | lockAgent {release : Release σ} (hphase : phase = .prepared release)
      (hfree : agentFree = true) :
      MoveCases agentFree agent versions phase m agent versions (.agentLocked release)
  | lockVersion {release : Release σ} (hphase : phase = .agentLocked release) :
      MoveCases agentFree agent versions phase m agent versions (.versionLocked release)
  | deprecateOthers {release : Release σ} (hphase : phase = .versionLocked release) :
      MoveCases agentFree agent versions phase m agent versions
        (.othersDeprecated release (publishedOthers release.version.id versions))
  | publish {release : Release σ} {others : List Nat}
      (hphase : phase = .othersDeprecated release others) (hmove : m = .commit) :
      MoveCases agentFree agent versions phase m (publishAgent release agent)
        (publishRows release others versions) .closed
  | edit {loaded : AgentVersion σ} {edit : Edit σ} (hphase : phase = .editing loaded edit)
      (hmove : m = .commit) :
      MoveCases agentFree agent versions phase m agent
        (updateRow loaded.id (edit.apply loaded) versions) .closed
  | lifecycle {loaded target : AgentStatus} (hphase : phase = .transitioning loaded target)
      (hmove : m = .commit) :
      MoveCases agentFree agent versions phase m
        { agent with status := write loaded target agent.status } versions .closed

theorem move_cases {agentFree : Bool} {rowFree : Nat → Bool} {agent agent' : Agent}
    {versions versions' : List (AgentVersion σ)} {phase phase' : Phase σ} {m : Move σ}
    (h : phase.move agentFree rowFree agent versions m = some (agent', versions', phase')) :
    MoveCases agentFree agent versions phase m agent' versions' phase' := by
  unfold Phase.move at h
  split at h
  · -- The version is loaded.
    rename_i via loaded id
    obtain ⟨row, hfind, h⟩ := Option.bind_eq_some_iff.mp h
    split at h
    · cases h
      refine .idle rfl (by simp) fun k hk => .inr ?_
      obtain rfl := List.mem_singleton.mp hk
      exact List.mem_map_of_mem (List.mem_of_find?_eq_some hfind)
    · cases h
  · split at h
    · cases h
      exact .idle rfl (by simp) fun k hk => .inl hk
    · split at h
      · cases h
        exact .idle rfl (by simp) fun k hk => .inl hk
      · cases h
  · split at h
    · cases h
      exact .console rfl rfl
    · cases h
  · cases h
    exact .idle rfl (by simp) fun k hk => .inl hk
  · cases h
    exact .idle rfl (by simp) fun k hk => .inl hk
  · cases h
    exact .idle rfl (by simp) fun k hk => .inl hk
  · split at h
    · rename_i hfree
      cases h
      exact .lockAgent rfl hfree
    · cases h
  · split at h
    · cases h
      exact .lockVersion rfl
    · cases h
  · simp only at h
    split at h
    · cases h
      exact .deprecateOthers rfl
    · cases h
  · cases h
    exact .publish rfl rfl
  · split at h
    · cases h
      exact .edit rfl rfl
    · cases h
  · split at h
    · cases h
      exact .lifecycle rfl rfl
    · cases h
  · cases h
    exact .idle rfl (by simp) fun k hk => by cases hk
  · cases h

/-- All a step of the system can do. -/
inductive StepCases (s : Store σ) (a : Action σ) : Store σ → Prop where
  | create {id : Nat} {snapshot : σ} (hnew : id ∉ s.versions.map (·.id)) :
      StepCases s a { s with versions := s.versions ++ [⟨id, .development, snapshot⟩] }
  /-- A session begins. -/
  | opened {p : Phase σ} (hlock : p.holdsAgent = false)
      (hdraft : ∀ loaded target, p = .editing loaded (.status target) → target.isDraft = true)
      (hids : ∀ id ∈ p.versionIds, id ∈ s.versions.map (·.id)) :
      StepCases s a { s with sessions := s.sessions ++ [p] }
  | moved {i : Nat} {m : Move σ} {p p' : Phase σ} {agent : Agent}
      {versions : List (AgentVersion σ)} (haction : a = .move i m) (hget : s.sessions[i]? = some p)
      (hcases : MoveCases (s.agentFree i) s.agent s.versions p m agent versions p') :
      StepCases s a ⟨agent, versions, s.sessions.set i p'⟩

theorem step_cases {s s' : Store σ} {a : Action σ} (h : step s a = some s') :
    StepCases s a s' := by
  cases a with
  | create id snapshot =>
      simp only [step] at h
      split at h
      · cases h
      · rename_i hnew
        cases h
        exact .create hnew
  | openRelease via =>
      simp only [step] at h
      split at h
      · cases h
        exact .opened rfl (by simp) fun id hid => by cases hid
      · cases h
  | openEdit id edit =>
      simp only [step] at h
      obtain ⟨row, hfind, h⟩ := Option.bind_eq_some_iff.mp h
      split at h
      · rename_i haccepts
        cases h
        refine .opened rfl ?_ fun k hk => ?_
        · rintro loaded target heq
          cases heq
          simp only [Edit.accepts, Bool.and_eq_true] at haccepts
          exact haccepts.1
        · obtain rfl := List.mem_singleton.mp hk
          exact List.mem_map_of_mem (List.mem_of_find?_eq_some hfind)
      · cases h
  | openLifecycle target =>
      simp only [step] at h
      split at h
      · cases h
        exact .opened rfl (by simp) fun id hid => by cases hid
      · cases h
  | move i m =>
      simp only [step] at h
      obtain ⟨phase, hget, h⟩ := Option.bind_eq_some_iff.mp h
      obtain ⟨⟨agent, versions, phase'⟩, hmove, rfl⟩ := Option.map_eq_some_iff.mp h
      exact .moved rfl hget (move_cases hmove)

end Cases

end Production
end HermesPlatform
