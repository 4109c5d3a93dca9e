/-
  HermesPlatform.Production.Immutability

  A published version keeps its snapshot, the current version is published and an
  archived agent does not become active again: in the runs in which what a session
  has read still holds when it writes.

  No session tests again once it has the row locks, so this is a condition on the
  run.  Under it a step finds every published or deprecated version as it leaves
  it, but for the versions that a publication deprecates.
-/

import HermesPlatform.Production.Publication

namespace HermesPlatform
namespace Production

open Parties Transition

variable {σ : Type}

/-! ## Reads that still hold -/

/-- The stored row of the version is a draft. -/
def StillDraft (s : Store σ) (id : Nat) : Prop :=
  ∀ row ∈ s.versions, row.id = id → row.status.isDraft = true

/-- What a publication has read, at its commit. -/
structure Release.Fresh (s : Store σ) (release : Release σ) : Prop where
  /-- The resolved capabilities were written into a draft. -/
  draft : release.flushed.isSome = true → StillDraft s release.version.id
  /-- `publish_agent_version` may get a version that is published. -/
  published : release.version.status = .published →
    ∀ row ∈ s.versions, row.id = release.version.id → row.status = .published
  /-- A rollback to the version that was current when it began. -/
  current : release.agent.currentVersionId = some release.version.id →
    s.agent.currentVersionId = some release.version.id
  /-- The console does not look at the status of the agent. -/
  unarchived : release.agent.status ≠ .active → s.agent.status ≠ .archived

/-- What the session has read still holds, as far as it writes. -/
def Phase.Fresh (s : Store σ) : Phase σ → Move σ → Prop
  | .tested .console release, .prepare (some snapshot) =>
      snapshot = release.version.snapshot ∧ release.version.status = .releaseCandidate ∨
        StillDraft s release.version.id
  | .othersDeprecated release _, .commit => release.Fresh s
  | .editing loaded (.snapshot snapshot), .commit =>
      snapshot = loaded.snapshot ∨ StillDraft s loaded.id
  | .editing loaded (.status target), .commit => target = loaded.status ∨ StillDraft s loaded.id
  | .transitioning loaded target, .commit =>
      s.agent.status = .archived → target = loaded ∨ target = .archived
  | _, _ => True

def Careful (s : Store σ) : Action σ → Prop
  | .move i m => ∀ phase, s.sessions[i]? = some phase → phase.Fresh s m
  | _ => True

section Decidable

instance (s : Store σ) (id : Nat) : Decidable (StillDraft s id) :=
  inferInstanceAs (Decidable (∀ row ∈ s.versions, row.id = id → row.status.isDraft = true))

instance (s : Store σ) (release : Release σ) : Decidable (release.Fresh s) :=
  decidable_of_iff (_ ∧ _ ∧ _ ∧ _)
    ⟨fun ⟨hdraft, hpublished, hcurrent, hunarchived⟩ =>
      ⟨hdraft, hpublished, hcurrent, hunarchived⟩,
      fun ⟨hdraft, hpublished, hcurrent, hunarchived⟩ =>
        ⟨hdraft, hpublished, hcurrent, hunarchived⟩⟩

variable [DecidableEq σ]

instance (s : Store σ) (p : Phase σ) (m : Move σ) : Decidable (p.Fresh s m) := by
  unfold Phase.Fresh
  split <;> infer_instance

instance (s : Store σ) (a : Action σ) : Decidable (Careful s a) :=
  match a with
  | .create .. | .openRelease .. | .openEdit .. | .openLifecycle .. => isTrue trivial
  | .move i m =>
      inferInstanceAs (Decidable (∀ phase, s.sessions[i]? = some phase → phase.Fresh s m))

end Decidable

/-! ## Writes that find what was read -/

theorem write_self {α : Type} [DecidableEq α] (value stored : α) :
    write value value stored = stored :=
  if_pos rfl

theorem write_eq {α : Type} [DecidableEq α] {loaded value stored : α}
    (h : loaded = value → stored = value) : write loaded value stored = value := by
  unfold write
  split
  · rename_i heq
    exact h heq.symm
  · rfl

/-- The update leaves what is no draft as it is. -/
def KeepsReleased (s : Store σ) (id : Nat) (f : AgentVersion σ → AgentVersion σ) : Prop :=
  ∀ row ∈ s.versions, row.id = id → row.status.isDraft = false → f row = row

theorem StillDraft.keepsReleased {s : Store σ} {id : Nat} (h : StillDraft s id)
    (f : AgentVersion σ → AgentVersion σ) : KeepsReleased s id f := by
  intro row hrow hid hdraft
  rw [h row hrow hid] at hdraft
  cases hdraft

theorem Edit.keepsReleased [DecidableEq σ] {s : Store σ} {loaded : AgentVersion σ} {edit : Edit σ}
    (h : (Phase.editing loaded edit).Fresh s .commit) :
    KeepsReleased s loaded.id (edit.apply loaded) := by
  cases edit with
  | snapshot snapshot =>
      rcases h with rfl | hdraft
      · intro row _ _ _
        simp only [Edit.apply, write_self]
      · exact hdraft.keepsReleased _
  | status target =>
      rcases h with rfl | hdraft
      · intro row _ _ _
        simp only [Edit.apply, write_self]
      · exact hdraft.keepsReleased _

theorem consoleRow_keepsReleased [DecidableEq σ] {s : Store σ} {release : Release σ} {snapshot : σ}
    (h : (Phase.tested .console release).Fresh s (.prepare (some snapshot))) :
    KeepsReleased s release.version.id (consoleRow release.version snapshot) := by
  rcases h with ⟨rfl, hstatus⟩ | hdraft
  · intro row _ _ _
    rw [consoleRow, hstatus, write_self, write_self]
  · exact hdraft.keepsReleased _

theorem mem_updateRow_of_released {s : Store σ} {id : Nat} {f : AgentVersion σ → AgentVersion σ}
    (h : KeepsReleased s id f) {row : AgentVersion σ} (hrow : row ∈ s.versions)
    (hreleased : row.status.isDraft = false) : row ∈ updateRow id f s.versions := by
  rw [mem_updateRow]
  by_cases hid : row.id = id
  · exact ⟨row, hrow, .inl ⟨hid, (h row hrow hid hreleased).symm⟩⟩
  · exact ⟨row, hrow, .inr ⟨hid, rfl⟩⟩

theorem publishRow_status {s : Store σ} {release : Release σ} (h : release.Fresh s)
    {row : AgentVersion σ} (hrow : row ∈ s.versions) (hid : row.id = release.version.id) :
    (publishRow release row).status = .published :=
  write_eq fun hloaded => h.published hloaded row hrow hid

theorem publishRow_snapshot {s : Store σ} {release : Release σ} (h : release.Fresh s)
    {row : AgentVersion σ} (hrow : row ∈ s.versions) (hid : row.id = release.version.id)
    (hreleased : row.status.isDraft = false) :
    (publishRow release row).snapshot = row.snapshot := by
  cases hflushed : release.flushed with
  | none => simp only [publishRow, hflushed, Option.getD_none]
  | some snapshot =>
      have hdraft := h.draft (by rw [hflushed]; rfl) row hrow hid
      rw [hreleased] at hdraft
      cases hdraft

/-! ## A released version -/

/-- The version has been published, with this snapshot. -/
def Released (id : Nat) (snapshot : σ) (versions : List (AgentVersion σ)) : Prop :=
  ∃ row ∈ versions, row.id = id ∧ row.status.isDraft = false ∧ row.snapshot = snapshot

theorem released_updateRow {s : Store σ} {k : Nat} {f : AgentVersion σ → AgentVersion σ}
    (h : KeepsReleased s k f) {id : Nat} {snapshot : σ} (hrel : Released id snapshot s.versions) :
    Released id snapshot (updateRow k f s.versions) := by
  obtain ⟨row, hrow, hid, hreleased, hsnapshot⟩ := hrel
  exact ⟨row, mem_updateRow_of_released h hrow hreleased, hid, hreleased, hsnapshot⟩

theorem released_publishRows {s : Store σ} {release : Release σ} (h : release.Fresh s)
    (others : List Nat) {id : Nat} {snapshot : σ} (hrel : Released id snapshot s.versions) :
    Released id snapshot (publishRows release others s.versions) := by
  obtain ⟨row, hrow, hid, hreleased, hsnapshot⟩ := hrel
  refine ⟨_, List.mem_map_of_mem hrow, ?_⟩
  split
  · rename_i hv
    have hstatus := publishRow_status h hrow hv
    have hkept := publishRow_snapshot h hrow hv hreleased
    refine ⟨hid, ?_, hkept.trans hsnapshot⟩
    rw [hstatus]
    rfl
  · split
    · exact ⟨hid, rfl, hsnapshot⟩
    · exact ⟨hid, hreleased, hsnapshot⟩

/-! ## What a step keeps -/

/-- A later state: nothing that is released changes, and an archived agent stays
    archived. -/
structure Keeps (s t : Store σ) : Prop where
  released : ∀ id snapshot, Released id snapshot s.versions → Released id snapshot t.versions
  archived : s.agent.status = .archived → t.agent.status = .archived

theorem Keeps.refl (s : Store σ) : Keeps s s := ⟨fun _ _ h => h, fun h => h⟩

theorem Keeps.trans {s t u : Store σ} (h : Keeps s t) (h' : Keeps t u) : Keeps s u :=
  ⟨fun id snapshot hrel => h'.released id snapshot (h.released id snapshot hrel),
    fun harchived => h'.archived (h.archived harchived)⟩

/-- The current version is published, and the sessions have versions of the table. -/
structure Consistent (s : Store σ) : Prop where
  current : ∀ v, s.agent.currentVersionId = some v →
    ∃ row ∈ s.versions, row.id = v ∧ row.status = .published
  known : ∀ p ∈ s.sessions, ∀ id ∈ p.versionIds, id ∈ s.versions.map (·.id)

theorem newAgent_consistent {s : Store σ} (h : NewAgent s) : Consistent s := by
  obtain ⟨hagent, -, hsessions⟩ := h
  exact ⟨by simp [hagent], by simp [hsessions]⟩

/-- A session takes a step. -/
theorem Consistent.set {s : Store σ} (h : Consistent s) {i : Nat} {p p' : Phase σ} {agent : Agent}
    {versions : List (AgentVersion σ)} (hget : s.sessions[i]? = some p)
    (hids : versions.map (·.id) = s.versions.map (·.id))
    (hversionIds : ∀ id ∈ p'.versionIds, id ∈ p.versionIds ∨ id ∈ s.versions.map (·.id))
    (hcurrent : ∀ v, agent.currentVersionId = some v →
      ∃ row ∈ versions, row.id = v ∧ row.status = .published) :
    Consistent ⟨agent, versions, s.sessions.set i p'⟩ := by
  refine ⟨hcurrent, fun q hq id hid => ?_⟩
  rw [hids]
  rcases List.mem_or_eq_of_mem_set hq with hq | rfl
  · exact h.known q hq id hid
  · rcases hversionIds id hid with hid | hid
    · exact h.known p (List.mem_of_getElem? hget) id hid
    · exact hid

/-- A new session. -/
theorem Consistent.append {s : Store σ} (h : Consistent s) {p : Phase σ}
    (hversionIds : ∀ id ∈ p.versionIds, id ∈ s.versions.map (·.id)) :
    Consistent { s with sessions := s.sessions ++ [p] } := by
  refine ⟨h.current, fun q hq id hid => ?_⟩
  rcases List.mem_append.mp hq with hq | hq
  · exact h.known q hq id hid
  · obtain rfl := List.mem_singleton.mp hq
    exact hversionIds id hid

/-- A session writes no released row. -/
theorem Consistent.updateRow {s : Store σ} (h : Consistent s) {i k : Nat} {p p' : Phase σ}
    {f : AgentVersion σ → AgentVersion σ} (hget : s.sessions[i]? = some p)
    (hid : ∀ row, (f row).id = row.id) (hkeeps : KeepsReleased s k f)
    (hversionIds : ∀ id ∈ p'.versionIds, id ∈ p.versionIds) :
    Consistent ⟨s.agent, updateRow k f s.versions, s.sessions.set i p'⟩ ∧
      Keeps s ⟨s.agent, Production.updateRow k f s.versions, s.sessions.set i p'⟩ := by
  refine ⟨h.set hget (ids_updateRow hid _) (fun id hmem => .inl (hversionIds id hmem)) ?_,
    fun _ _ => released_updateRow hkeeps, fun harchived => harchived⟩
  intro v hv
  obtain ⟨row, hrow, hrowId, hstatus⟩ := h.current v hv
  exact ⟨row, mem_updateRow_of_released hkeeps hrow (by rw [hstatus]; rfl), hrowId, hstatus⟩

/-- The commit of a publication. -/
theorem Consistent.publish {s : Store σ} (h : Consistent s) {i : Nat} {release : Release σ}
    {others : List Nat} (hget : s.sessions[i]? = some (.othersDeprecated release others))
    (hfresh : release.Fresh s) :
    Consistent ⟨publishAgent release s.agent, publishRows release others s.versions,
        s.sessions.set i .closed⟩ ∧
      Keeps s ⟨publishAgent release s.agent, publishRows release others s.versions,
        s.sessions.set i .closed⟩ := by
  have hmem := List.mem_of_getElem? hget
  refine ⟨h.set hget (ids_publishRows _ _ _) (fun _ hid => by cases hid) ?_,
    fun _ _ => released_publishRows hfresh others, ?_⟩
  · intro v hv
    -- The version of the release is current afterwards.
    have hcurrent : (publishAgent release s.agent).currentVersionId = some release.version.id :=
      write_eq hfresh.current
    rw [hcurrent, Option.some.injEq] at hv
    subst hv
    obtain ⟨row, hrow, hid⟩ :=
      List.mem_map.mp (h.known _ hmem release.version.id (List.mem_singleton.mpr rfl))
    refine ⟨publishRow release row, ?_, hid, publishRow_status hfresh hrow hid⟩
    exact List.mem_map.mpr ⟨row, hrow, if_pos hid⟩
  · intro harchived
    have hactive : release.agent.status = .active := by
      by_contra hne
      exact hfresh.unarchived hne harchived
    simp only [publishAgent, hactive, write_self]
    exact harchived

section Steps

variable [DecidableEq σ]

theorem careful_move {s : Store σ} {i : Nat} {p p' : Phase σ} {agent : Agent}
    {versions : List (AgentVersion σ)} {m : Move σ} (h : Consistent s)
    (hget : s.sessions[i]? = some p) (hfresh : p.Fresh s m)
    (hcases : MoveCases (s.agentFree i) s.agent s.versions p m agent versions p') :
    Consistent ⟨agent, versions, s.sessions.set i p'⟩ ∧
      Keeps s ⟨agent, versions, s.sessions.set i p'⟩ := by
  cases hcases with
  | idle _ _ hids => exact ⟨h.set hget rfl hids h.current, fun _ _ hrel => hrel, fun ha => ha⟩
  | console hphase hmove =>
      subst hphase hmove
      exact h.updateRow hget (consoleRow_id _ _) (consoleRow_keepsReleased hfresh)
        fun id hid => hid
  | lockAgent hphase _ =>
      subst hphase
      exact ⟨h.set hget rfl (fun id hid => .inl hid) h.current, fun _ _ hrel => hrel,
        fun ha => ha⟩
  | lockVersion hphase =>
      subst hphase
      exact ⟨h.set hget rfl (fun id hid => .inl hid) h.current, fun _ _ hrel => hrel,
        fun ha => ha⟩
  | deprecateOthers hphase =>
      subst hphase
      exact ⟨h.set hget rfl (fun id hid => .inl hid) h.current, fun _ _ hrel => hrel,
        fun ha => ha⟩
  | publish hphase hmove =>
      subst hphase hmove
      exact h.publish hget hfresh
  | edit hphase hmove =>
      subst hphase hmove
      exact h.updateRow hget (Edit.id_apply _ _) (Edit.keepsReleased hfresh)
        fun id hid => by cases hid
  | @lifecycle loaded target hphase hmove =>
      subst hphase hmove
      refine ⟨h.set hget rfl (fun id hid => by cases hid) h.current, fun _ _ hrel => hrel, ?_⟩
      intro harchived
      rcases hfresh harchived with rfl | rfl
      · rw [← harchived]
        exact write_self _ _
      · exact write_eq fun _ => harchived

theorem careful_step {s s' : Store σ} {a : Action σ} (h : Consistent s) (hcareful : Careful s a)
    (hstep : step s a = some s') : Consistent s' ∧ Keeps s s' := by
  cases step_cases hstep with
  | create _ =>
      refine ⟨⟨fun v hv => ?_, fun p hp k hk => ?_⟩, fun k value hrel => ?_, fun ha => ha⟩
      · obtain ⟨row, hrow, hid⟩ := h.current v hv
        exact ⟨row, List.mem_append_left _ hrow, hid⟩
      · rw [List.map_append]
        exact List.mem_append_left _ (h.known p hp k hk)
      · obtain ⟨row, hrow, hreleased⟩ := hrel
        exact ⟨row, List.mem_append_left _ hrow, hreleased⟩
  | opened _ _ hids => exact ⟨h.append hids, fun _ _ hrel => hrel, fun ha => ha⟩
  | moved haction hget hcases =>
      subst haction
      exact careful_move h hget (hcareful _ hget) hcases

/-! ## Immutable and current -/

/-- What is promised of a state `t` after a state `s`. -/
structure Immutable (s t : Store σ) : Prop where
  snapshot : ∀ row ∈ s.versions, row.status = .published →
    ∀ row' ∈ t.versions, row'.id = row.id → row'.snapshot = row.snapshot
  current : ∀ v, t.agent.currentVersionId = some v →
    ∃ row ∈ t.versions, row.id = v ∧ row.status = .published
  archived : s.agent.status = .archived → t.agent.status ≠ .active

/-- **Immutable publication.** In the runs in which what is read still holds when
    it is written, a published version keeps its snapshot, the current version is
    published and an archived agent stays out of use. -/
theorem published_immutable {s t : Store σ} (h : (system σ).Reachable Careful s)
    (hpath : (system σ).Path Careful s t) : Immutable s t := by
  have hs : Consistent s := h.invariant Consistent (fun _ hinit => newAgent_consistent hinit)
    fun _ _ _ hu hgood hstep => (careful_step hu hgood hstep).1
  have ht : Consistent t ∧ Keeps s t := by
    refine hpath.preserves (fun u => Consistent u ∧ Keeps s u) (fun u a v hu hgood hstep => ?_)
      ⟨hs, .refl s⟩
    obtain ⟨hv, hkeeps⟩ := careful_step hu.1 hgood hstep
    exact ⟨hv, hu.2.trans hkeeps⟩
  have hids : (t.versions.map (·.id)).Nodup :=
    (publishing_reachable ((h.path hpath).mono fun _ _ _ => trivial)).ids
  refine ⟨fun row hrow hstatus row' hrow' hid => ?_, ht.1.current, fun harchived => ?_⟩
  · obtain ⟨kept, hkept, hkeptId, -, hsnapshot⟩ :=
      ht.2.released row.id row.snapshot ⟨row, hrow, rfl, by rw [hstatus]; rfl, rfl⟩
    obtain rfl := List.inj_on_of_nodup_map hids hkept hrow' (hkeptId.trans hid.symm)
    exact hsnapshot
  · rw [ht.2.archived harchived]
    decide

end Steps

/-- One of two versions is published. -/
def firstRelease : List (Action Nat) :=
  candidate 1 0 10 ++ candidate 2 2 20 ++ prepareRelease .api 1 4 ++ finishRelease 4

/-- The other version is published and the first one comes back. -/
def replaceAndRestore : List (Action Nat) :=
  prepareRelease .api 2 5 ++ finishRelease 5 ++ prepareRelease .rollback 1 6 ++ finishRelease 6

theorem published_immutable_restored :
    ∃ s t, (system Nat).exec newAgent firstRelease = some s ∧
      (system Nat).exec s replaceAndRestore = some t ∧ Immutable s t :=
  ⟨_, _, rfl, rfl, published_immutable
    ⟨newAgent, newAgent_init, System.path_of_allowed firstRelease (by decide) rfl⟩
    (System.path_of_allowed replaceAndRestore (by decide) rfl)⟩

/-- A snapshot for a draft, not committed before the draft is published. -/
def staleUpdate : List (Action Nat) :=
  candidate 1 0 10 ++ [.openEdit 1 (.snapshot 11)] ++ prepareRelease .api 1 3 ++ finishRelease 3

/-- A rollback to the first version that begins before the second is published. -/
def staleRollback : List (Action Nat) :=
  firstRelease ++ [.openRelease .rollback] ++ prepareRelease .api 2 6 ++ finishRelease 6 ++
    [.move 5 (.loadVersion 1), .move 5 (.prepare none)] ++ finishRelease 5

/-- An agent with a release candidate is archived. -/
def archiveCandidate : List (Action Nat) :=
  candidate 1 0 10 ++ [.openLifecycle .archived, .move 2 .commit]

/-- The update changes the published snapshot, the rollback leaves a deprecated
    version current, and the console brings the archived agent back. -/
theorem stale_commits :
    (¬ ∀ s t, (system Nat).Reachable System.anyStep s → (system Nat).Path System.anyStep s t →
        ∀ row ∈ s.versions, row.status = .published →
          ∀ row' ∈ t.versions, row'.id = row.id → row'.snapshot = row.snapshot) ∧
      (¬ ∀ s, (system Nat).Reachable System.anyStep s → ∀ v, s.agent.currentVersionId = some v →
        ∃ row ∈ s.versions, row.id = v ∧ row.status = .published) ∧
      ¬ ∀ s t, (system Nat).Reachable System.anyStep s → (system Nat).Path System.anyStep s t →
        s.agent.status = .archived → t.agent.status ≠ .active := by
  refine ⟨fun hclaim => ?_, fun hclaim => ?_, fun hclaim => ?_⟩
  · have hsnapshot := hclaim _ _
      ⟨newAgent, newAgent_init, System.path_of_exec staleUpdate rfl⟩
      (System.path_of_exec [.move 2 .commit] rfl)
      ⟨1, .published, 10⟩ (.head _) rfl ⟨1, .published, 11⟩ (.head _) rfl
    exact absurd hsnapshot (by decide)
  · have hcurrent := hclaim _
      ⟨newAgent, newAgent_init, System.path_of_exec staleRollback rfl⟩ 2 rfl
    exact absurd hcurrent (by decide)
  · have harchived := hclaim _ _
      ⟨newAgent, newAgent_init, System.path_of_exec archiveCandidate rfl⟩
      (System.path_of_exec ([.openRelease .console, .move 3 (.loadVersion 1),
        .move 3 (.prepare (some 10))] ++ finishRelease 3) rfl) rfl
    exact harchived rfl

end Production
end HermesPlatform
