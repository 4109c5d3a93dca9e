/-
  HermesPlatform.Production.Publication

  At most one version of an agent is published, in every run of the sessions.

  The lock of the agent's row carries this: from the update that deprecates the
  other versions to the commit no other session can publish, and everything else
  only takes versions out of publication.
-/

import HermesPlatform.Lib.Parties
import HermesPlatform.Production.Sessions

namespace HermesPlatform
namespace Production

open Parties Transition

variable {σ : Type}

/-! ## Published rows -/

/-- What is published was published before. -/
def PublishedFrom (versions versions' : List (AgentVersion σ)) : Prop :=
  ∀ row' ∈ versions', row'.status = .published →
    ∃ row ∈ versions, row.id = row'.id ∧ row.status = .published

theorem PublishedFrom.refl (versions : List (AgentVersion σ)) : PublishedFrom versions versions :=
  fun row hrow hstatus => ⟨row, hrow, rfl, hstatus⟩

theorem publishedFrom_updateRow {id : Nat} {f : AgentVersion σ → AgentVersion σ}
    (hid : ∀ row, (f row).id = row.id)
    (hf : ∀ row, (f row).status = .published → row.status = .published)
    (versions : List (AgentVersion σ)) : PublishedFrom versions (updateRow id f versions) := by
  intro row' hrow' hstatus
  obtain ⟨row, hrow, ⟨-, rfl⟩ | ⟨-, rfl⟩⟩ := mem_updateRow.mp hrow'
  · exact ⟨row, hrow, (hid row).symm, hf row hstatus⟩
  · exact ⟨row', hrow, rfl, hstatus⟩

/-- A draft status is written, or none. -/
theorem write_published {loaded target stored : VersionStatus} (htarget : target.isDraft = true)
    (h : write loaded target stored = .published) : stored = .published := by
  unfold write at h
  split at h
  · exact h
  · subst h
    cases htarget

theorem Edit.id_apply [DecidableEq σ] (edit : Edit σ) (loaded row : AgentVersion σ) :
    (edit.apply loaded row).id = row.id := by
  cases edit <;> rfl

theorem Edit.apply_published [DecidableEq σ] {edit : Edit σ}
    (hdraft : ∀ target, edit = .status target → target.isDraft = true)
    {loaded row : AgentVersion σ} (h : (edit.apply loaded row).status = .published) :
    row.status = .published := by
  cases edit with
  | snapshot value => exact h
  | status target => exact write_published (hdraft target rfl) h

theorem consoleRow_id [DecidableEq σ] (loaded : AgentVersion σ) (snapshot : σ)
    (row : AgentVersion σ) : (consoleRow loaded snapshot row).id = row.id := rfl

theorem consoleRow_published [DecidableEq σ] {loaded : AgentVersion σ} {snapshot : σ}
    (row : AgentVersion σ) (h : (consoleRow loaded snapshot row).status = .published) :
    row.status = .published :=
  write_published rfl h

theorem mem_publishRows {release : Release σ} {others : List Nat}
    {versions : List (AgentVersion σ)} {row' : AgentVersion σ}
    (h : row' ∈ publishRows release others versions) :
    ∃ row ∈ versions, row.id = row'.id ∧
      (row.id = release.version.id ∧ row' = publishRow release row ∨
        row.id ≠ release.version.id ∧ row.id ∈ others ∧ row' = { row with status := .deprecated } ∨
        row.id ≠ release.version.id ∧ row.id ∉ others ∧ row' = row) := by
  obtain ⟨row, hrow, rfl⟩ := List.mem_map.mp h
  refine ⟨row, hrow, ?_⟩
  split
  · rename_i hid
    exact ⟨rfl, .inl ⟨hid, rfl⟩⟩
  · rename_i hid
    split
    · rename_i hothers
      exact ⟨rfl, .inr (.inl ⟨hid, hothers, rfl⟩)⟩
    · rename_i hothers
      exact ⟨rfl, .inr (.inr ⟨hid, hothers, rfl⟩)⟩

theorem ids_publishRows (release : Release σ) (others : List Nat)
    (versions : List (AgentVersion σ)) :
    (publishRows release others versions).map (·.id) = versions.map (·.id) := by
  rw [publishRows, List.map_map]
  refine List.map_congr_left fun row _ => ?_
  simp only [Function.comp_apply]
  split
  · rfl
  · split <;> rfl

/-- When the others cover what is published, the commit leaves nothing else
    published. -/
theorem publishRows_published {release : Release σ} {others : List Nat}
    {versions : List (AgentVersion σ)}
    (hothers : ∀ row ∈ versions, row.status = .published →
      row.id = release.version.id ∨ row.id ∈ others) {row' : AgentVersion σ}
    (h : row' ∈ publishRows release others versions) (hstatus : row'.status = .published) :
    row'.id = release.version.id := by
  obtain ⟨row, hrow, hid, ⟨hv, -⟩ | ⟨-, -, rfl⟩ | ⟨hv, hnot, rfl⟩⟩ := mem_publishRows h
  · rw [← hid, hv]
  · cases hstatus
  · exact absurd (hothers row' hrow hstatus) (by simp [hv, hnot])

/-! ## The invariant -/

/-- A session holds the agent's row. -/
def HoldsAgent (p : Phase σ) (_ : Unit) : Prop := p.holdsAgent = true

structure Publishing (s : Store σ) : Prop where
  ids : (s.versions.map (·.id)).Nodup
  drafts : ∀ loaded target, Phase.editing loaded (.status target) ∈ s.sessions →
    target.isDraft = true
  holder : Exclusive HoldsAgent s.sessions
  /-- Nothing was published since the others were deprecated. -/
  others : ∀ release others, Phase.othersDeprecated release others ∈ s.sessions →
    ∀ row ∈ s.versions, row.status = .published → row.id = release.version.id ∨ row.id ∈ others
  single : ∀ row ∈ s.versions, ∀ row' ∈ s.versions, row.status = .published →
    row'.status = .published → row.id = row'.id

/-- A new session. -/
theorem Publishing.append {s : Store σ} (h : Publishing s) {p : Phase σ}
    (hlock : p.holdsAgent = false)
    (hdraft : ∀ loaded target, p = .editing loaded (.status target) → target.isDraft = true) :
    Publishing { s with sessions := s.sessions ++ [p] } := by
  refine ⟨h.ids, ?_, h.holder.append (by simp [HoldsAgent, hlock]), ?_, h.single⟩
  · intro loaded target hmem
    rcases List.mem_append.mp hmem with hmem | hmem
    · exact h.drafts loaded target hmem
    · exact hdraft loaded target (List.mem_singleton.mp hmem).symm
  · intro release others hmem
    rcases List.mem_append.mp hmem with hmem | hmem
    · exact h.others release others hmem
    · obtain rfl := List.mem_singleton.mp hmem
      cases hlock

/-- A session takes a step with which nothing gets published. -/
theorem Publishing.set {s : Store σ} (h : Publishing s) {i : Nat} {p p' : Phase σ} {agent : Agent}
    {versions : List (AgentVersion σ)} (hget : s.sessions[i]? = some p)
    (hids : (versions.map (·.id)) = s.versions.map (·.id))
    (hpublished : PublishedFrom s.versions versions)
    (hlock : p'.holdsAgent = true → p.holdsAgent = true ∨ FreeFor HoldsAgent s.sessions i ())
    (hdraft : ∀ loaded target, p' ≠ .editing loaded (.status target))
    (hothers : ∀ release others, p' = .othersDeprecated release others →
      ∀ row ∈ s.versions, row.status = .published →
        row.id = release.version.id ∨ row.id ∈ others) :
    Publishing ⟨agent, versions, s.sessions.set i p'⟩ := by
  refine ⟨hids ▸ h.ids, ?_, h.holder.set hget fun _ hk => hlock hk, ?_, ?_⟩
  · intro loaded target hmem
    rcases List.mem_or_eq_of_mem_set hmem with hmem | heq
    · exact h.drafts loaded target hmem
    · exact absurd heq.symm (hdraft loaded target)
  · intro release others hmem row' hrow' hstatus
    obtain ⟨row, hrow, hid, hstatus⟩ := hpublished row' hrow' hstatus
    rw [← hid]
    rcases List.mem_or_eq_of_mem_set hmem with hmem | heq
    · exact h.others release others hmem row hrow hstatus
    · exact hothers release others heq.symm row hrow hstatus
  · intro row hrow row' hrow' hstatus hstatus'
    obtain ⟨old, hold, hid, holdStatus⟩ := hpublished row hrow hstatus
    obtain ⟨old', hold', hid', holdStatus'⟩ := hpublished row' hrow' hstatus'
    rw [← hid, ← hid']
    exact h.single old hold old' hold' holdStatus holdStatus'

/-- The commit of a publication. -/
theorem Publishing.publish {s : Store σ} (h : Publishing s) {i : Nat} {release : Release σ}
    {others : List Nat} (hget : s.sessions[i]? = some (.othersDeprecated release others))
    (agent : Agent) :
    Publishing ⟨agent, publishRows release others s.versions, s.sessions.set i .closed⟩ := by
  have hmem := List.mem_of_getElem? hget
  have hpublished : ∀ row ∈ publishRows release others s.versions, row.status = .published →
      row.id = release.version.id := fun row hrow hstatus =>
    publishRows_published (h.others release others hmem) hrow hstatus
  have hclosed : ∀ k, ¬ HoldsAgent (Phase.closed : Phase σ) k := fun k hk => by cases hk
  refine ⟨?_, ?_, h.holder.set hget fun k hk => absurd hk (hclosed k), ?_, ?_⟩
  · rw [ids_publishRows]
    exact h.ids
  · intro loaded target hmem'
    rcases List.mem_or_eq_of_mem_set hmem' with hmem' | heq
    · exact h.drafts loaded target hmem'
    · cases heq
  · -- No other session can be between its update and its commit.
    intro release' others' hmem'
    obtain ⟨j, hget'⟩ := List.mem_iff_getElem?.mp hmem'
    rcases getElem?_set_cases hget' with ⟨-, heq⟩ | ⟨hne, hget'⟩
    · cases heq
    · exact absurd (h.holder i j _ _ () hget hget' rfl rfl) hne
  · intro row hrow row' hrow' hstatus hstatus'
    rw [hpublished row hrow hstatus, hpublished row' hrow' hstatus']

theorem freeFor_of_agentFree {s : Store σ} {i : Nat} (h : s.agentFree i = true) :
    FreeFor HoldsAgent s.sessions i () :=
  freeFor_of_all h fun p hp => by simpa [HoldsAgent] using hp

section Steps

variable [DecidableEq σ]

theorem publishing_move {s : Store σ} {i : Nat} {p p' : Phase σ} {agent : Agent}
    {versions : List (AgentVersion σ)} {m : Move σ} (h : Publishing s)
    (hget : s.sessions[i]? = some p)
    (hcases : MoveCases (s.agentFree i) s.agent s.versions p m agent versions p') :
    Publishing ⟨agent, versions, s.sessions.set i p'⟩ := by
  cases hcases with
  | idle hlock hedit hids =>
      refine h.set hget rfl (PublishedFrom.refl _) (fun hk => ?_) (fun _ _ => hedit _ _) ?_
      · rw [hlock] at hk
        cases hk
      · rintro release others rfl
        cases hlock
  | console hphase hmove =>
      refine h.set hget ?_ ?_ (fun hk => by cases hk) (by simp) (by simp)
      · exact ids_updateRow (consoleRow_id _ _) _
      · exact publishedFrom_updateRow (consoleRow_id _ _) consoleRow_published _
  | lockAgent hphase hfree =>
      exact h.set hget rfl (PublishedFrom.refl _) (fun _ => .inr (freeFor_of_agentFree hfree))
        (by simp) (by simp)
  | lockVersion hphase =>
      subst hphase
      exact h.set hget rfl (PublishedFrom.refl _) (fun _ => .inl rfl) (by simp) (by simp)
  | @deprecateOthers release hphase =>
      subst hphase
      refine h.set hget rfl (PublishedFrom.refl _) (fun _ => .inl rfl) (by simp) ?_
      intro release' others heq row hrow hstatus
      cases heq
      by_cases hid : row.id = release.version.id
      · exact .inl hid
      · refine .inr (List.mem_map_of_mem (List.mem_filter.mpr ⟨hrow, ?_⟩))
        simp [hid, hstatus]
  | publish hphase hmove =>
      subst hphase
      exact h.publish hget _
  | edit hphase hmove =>
      subst hphase
      have hdrafts := h.drafts
      have hmem := List.mem_of_getElem? hget
      refine h.set hget (ids_updateRow (Edit.id_apply _ _) _)
        (publishedFrom_updateRow (Edit.id_apply _ _) (fun row => ?_) _)
        (fun hk => by cases hk) (by simp) (by simp)
      refine Edit.apply_published fun target heq => ?_
      subst heq
      exact hdrafts _ target hmem
  | lifecycle hphase hmove =>
      exact h.set hget rfl (PublishedFrom.refl _) (fun hk => by cases hk) (by simp) (by simp)

theorem publishing_step {s s' : Store σ} {a : Action σ} (h : Publishing s)
    (hstep : step s a = some s') : Publishing s' := by
  cases step_cases hstep with
  | @create id snapshot hnew =>
      -- The new row is a draft.
      have hold : ∀ row ∈ s.versions ++ [⟨id, .development, snapshot⟩],
          row.status = .published → row ∈ s.versions := by
        intro row hrow hstatus
        rcases List.mem_append.mp hrow with hrow | hrow
        · exact hrow
        · obtain rfl := List.mem_singleton.mp hrow
          cases hstatus
      refine ⟨?_, h.drafts, h.holder, ?_, ?_⟩
      · rw [List.map_append, List.nodup_append]
        refine ⟨h.ids, by simp, ?_⟩
        rintro k hk _ hlast rfl
        have hid : k = id := by simpa using hlast
        exact hnew (hid ▸ hk)
      · exact fun release others hmem row hrow hstatus =>
          h.others release others hmem row (hold row hrow hstatus) hstatus
      · exact fun row hrow row' hrow' hstatus hstatus' =>
          h.single row (hold row hrow hstatus) row' (hold row' hrow' hstatus') hstatus hstatus'
  | opened hlock hdraft _ => exact h.append hlock hdraft
  | moved _ hget hcases => exact publishing_move h hget hcases

theorem publishing_reachable {s : Store σ} (h : (system σ).Reachable System.anyStep s) :
    Publishing s := by
  refine h.invariant Publishing ?_ fun _ _ _ hs _ hstep => publishing_step hs hstep
  rintro s ⟨-, hversions, hsessions⟩
  refine ⟨by simp [hversions], by simp [hsessions], by rw [hsessions]; exact Exclusive.nil,
    by simp [hsessions], by simp [hversions]⟩

/-! ## Unique publication -/

omit [DecidableEq σ] in
/-- Rows with different ids that have one id among them are at most one. -/
theorem countP_le_one {versions : List (AgentVersion σ)} {p : AgentVersion σ → Bool}
    (hids : (versions.map (·.id)).Nodup)
    (h : ∀ row ∈ versions, ∀ row' ∈ versions, p row = true → p row' = true → row.id = row'.id) :
    versions.countP p ≤ 1 := by
  induction versions with
  | nil => simp
  | cons row rest ih =>
      rw [List.map_cons, List.nodup_cons] at hids
      have hrest := ih hids.2 fun a ha b hb =>
        h a (List.mem_cons_of_mem _ ha) b (List.mem_cons_of_mem _ hb)
      rw [List.countP_cons]
      split
      · rename_i hrow
        have hzero : rest.countP p = 0 := by
          rw [List.countP_eq_zero]
          intro other hother hp
          have hid := h row List.mem_cons_self other (List.mem_cons_of_mem _ hother) hrow hp
          exact hids.1 (hid ▸ List.mem_map_of_mem hother)
        omega
      · exact hrest

/-- A step that makes a version current leaves no other one published. -/
theorem current_alone {s s' : Store σ} {a : Action σ} (h : Publishing s)
    (hstep : step s a = some s') {w : Nat} (hcurrent : s'.agent.currentVersionId = some w)
    (hchanged : s.agent.currentVersionId ≠ some w) :
    ∀ row ∈ s'.versions, row.status = .published → row.id = w := by
  cases step_cases hstep with
  | create _ => exact absurd hcurrent hchanged
  | opened _ _ _ => exact absurd hcurrent hchanged
  | moved _ hget hcases =>
      cases hcases with
      | idle _ _ _ => exact absurd hcurrent hchanged
      | console _ _ => exact absurd hcurrent hchanged
      | lockAgent _ _ => exact absurd hcurrent hchanged
      | lockVersion _ => exact absurd hcurrent hchanged
      | deprecateOthers _ => exact absurd hcurrent hchanged
      | edit _ _ => exact absurd hcurrent hchanged
      | lifecycle _ _ => exact absurd hcurrent hchanged
      | publish hphase _ =>
          subst hphase
          -- The column was written, so it has the version that is published.
          simp only [publishAgent, write] at hcurrent
          split at hcurrent
          · exact absurd hcurrent hchanged
          · cases hcurrent
            exact fun row hrow hstatus => publishRows_published
              (h.others _ _ (List.mem_of_getElem? hget)) hrow hstatus

/-- **Unique publication.** In every run at most one version is published after
    each commit, and none but the new one when the current version changes. -/
theorem publication_unique {s : Store σ} (h : (system σ).Reachable System.anyStep s) :
    s.versions.countP (fun row => row.status = .published) ≤ 1 ∧
      ∀ a s', step s a = some s' → ∀ w, s'.agent.currentVersionId = some w →
        s.agent.currentVersionId ≠ some w →
        ∀ row ∈ s'.versions, row.status = .published → row.id = w := by
  have hpublishing := publishing_reachable h
  refine ⟨countP_le_one hpublishing.ids fun row hrow row' hrow' hp hp' => ?_, ?_⟩
  · exact hpublishing.single row hrow row' hrow' (by simpa using hp) (by simpa using hp')
  · exact fun a s' hstep w hcurrent hchanged => current_alone hpublishing hstep hcurrent hchanged

end Steps

/-! ## A run -/

/-- A new agent. -/
def newAgent : Store σ := ⟨⟨.active, none⟩, [], []⟩

theorem newAgent_init [DecidableEq σ] : (system σ).init newAgent := ⟨rfl, rfl, rfl⟩

/-- A new version becomes a release candidate, with the sessions `i` and `i + 1`. -/
def candidate (id i : Nat) (snapshot : σ) : List (Action σ) :=
  [.create id snapshot, .openEdit id (.status .testing), .move i .commit,
    .openEdit id (.status .releaseCandidate), .move (i + 1) .commit]

/-- A session comes to the locks of a publication. -/
def prepareRelease (via : Via) (id i : Nat) : List (Action σ) :=
  [.openRelease via, .move i (.loadVersion id), .move i (.prepare none)]

/-- The rest of the publication. -/
def finishRelease (i : Nat) : List (Action σ) :=
  [.move i .lockAgent, .move i .lockVersion, .move i .deprecateOthers, .move i .commit]

/-- Two versions are published at the same time. -/
def twoReleases : List (Action Nat) :=
  candidate 1 0 10 ++ candidate 2 2 20 ++ prepareRelease .api 1 4 ++ prepareRelease .api 2 5 ++
    finishRelease 4 ++ finishRelease 5

theorem publication_unique_twice :
    ∃ s, (system Nat).exec newAgent twoReleases = some s ∧ s.agent.currentVersionId = some 2 ∧
      s.versions.countP (fun row => row.status = .published) ≤ 1 ∧
      ∀ a s', step s a = some s' → ∀ w, s'.agent.currentVersionId = some w →
        s.agent.currentVersionId ≠ some w →
        ∀ row ∈ s'.versions, row.status = .published → row.id = w :=
  ⟨_, rfl, rfl, publication_unique ⟨newAgent, newAgent_init, System.path_of_exec twoReleases rfl⟩⟩

end Production
end HermesPlatform
