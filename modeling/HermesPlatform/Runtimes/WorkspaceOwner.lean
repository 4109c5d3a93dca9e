/-
  HermesPlatform.Runtimes.WorkspaceOwner

  `_assign_workspace_owner`: the uid that the harness of a workspace runs as, which is to be no
  other workspace's.

  The owners of the repositories are the record.  A call looks at those of all other workspaces,
  keeps the workspace's own uid if it is in the range and none of them has it, takes the first
  uid of the range that none of them has otherwise, and makes it the owner.  So a uid that a
  call has settled is never taken by another call.
-/

import HermesPlatform.Lib.Table
import HermesPlatform.Lib.Transition

namespace HermesPlatform
namespace DeepSeek
namespace WorkspaceOwner

open Transition

section Owners

variable {ω : Type} [DecidableEq ω] (uidMin uidMax : Nat)

/-! ## One call -/

/-- The owners in the range, of the repositories other than the workspace's. -/
def used (repositories : List (ω × Nat)) (workspace : ω) : List Nat :=
  (repositories.filter fun p => uidMin ≤ p.2 ∧ p.2 ≤ uidMax ∧ p.1 ≠ workspace).map Prod.snd

/-- `selected_uid`, `none` for the default of `next`. -/
def selected (repositories : List (ω × Nat)) (workspace : ω) (currentUid : Nat) : Option Nat :=
  if uidMin ≤ currentUid ∧ currentUid ≤ uidMax ∧
      currentUid ∉ used uidMin uidMax repositories workspace then some currentUid
  else (List.range' uidMin (uidMax + 1 - uidMin)).find?
    fun uid => uid ∉ used uidMin uidMax repositories workspace

/-- `_assign_workspace_owner`, up to the change of the owner. -/
def assignWorkspaceOwner (repositories : List (ω × Nat)) (workspace : ω) : Except String Nat :=
  if uidMin > uidMax then .error "DeepSeek execution UID range is invalid"
  else
    match Table.get workspace repositories with
    | none => .error "No such file or directory"
    | some currentUid =>
        match selected uidMin uidMax repositories workspace currentUid with
        | none => .error "DeepSeek execution UID pool is exhausted"
        | some uid => .ok uid

/-! ## Calls in any order -/

structure OwnerState (ω : Type) where
  /-- The owners of the `*/sessions/*/repository` directories. -/
  repositories : List (ω × Nat)
  /-- The workspaces whose repository a call has given its owner. -/
  settled : List ω
  /-- What the calls have returned. -/
  returned : List (ω × Nat)

/-- A call may stop after the repository has its owner, with a file that cannot be changed. -/
inductive OwnerAction (ω : Type) where
  | create (workspace : ω) (owner : Nat)
  | assign (workspace : ω) (completes : Bool)

def ownerStep (s : OwnerState ω) : OwnerAction ω → Option (OwnerState ω)
  | .create workspace owner =>
      match Table.get workspace s.repositories with
      | some _ => none
      | none => some { s with repositories := s.repositories ++ [(workspace, owner)] }
  | .assign workspace completes =>
      match assignWorkspaceOwner uidMin uidMax s.repositories workspace with
      | .error _ => some s
      | .ok uid => some {
          repositories := Table.put workspace uid s.repositories
          settled := workspace :: s.settled
          returned := if completes then s.returned ++ [(workspace, uid)] else s.returned }

/-- `_execution_uid`, one call at a time. -/
def ownerSystem : System (OwnerState ω) (OwnerAction ω) where
  init s := Table.Unique Prod.fst s.repositories ∧ s.settled = [] ∧ s.returned = []
  step := ownerStep uidMin uidMax

/-- The workspaces are those of the start. -/
def CallsOnly (_ : OwnerState ω) : OwnerAction ω → Prop
  | .create .. => False
  | .assign .. => True

/-! ## What one call selects -/

variable {uidMin uidMax} {repositories : List (ω × Nat)} {workspace other : ω} {uid owner : Nat}

theorem mem_used (h : Table.get other repositories = some owner) (hne : other ≠ workspace)
    (hlow : uidMin ≤ owner) (hhigh : owner ≤ uidMax) :
    owner ∈ used uidMin uidMax repositories workspace :=
  List.mem_map.mpr ⟨(other, owner), List.mem_filter.mpr ⟨Table.mem_of_get h,
    decide_eq_true ⟨hlow, hhigh, hne⟩⟩, rfl⟩

theorem of_mem_used (hunique : Table.Unique Prod.fst repositories)
    (h : uid ∈ used uidMin uidMax repositories workspace) :
    uidMin ≤ uid ∧ uid ≤ uidMax ∧
      ∃ other, other ≠ workspace ∧ Table.get other repositories = some uid := by
  obtain ⟨⟨other, owner⟩, hmem, rfl⟩ := List.mem_map.mp h
  obtain ⟨hmem, hrange⟩ := List.mem_filter.mp hmem
  obtain ⟨hlow, hhigh, hne⟩ := of_decide_eq_true hrange
  exact ⟨hlow, hhigh, other, hne, hunique.get_of_mem hmem⟩

/-- A uid that may be the workspace's: in the range, and no other repository's owner. -/
def Free (uidMin uidMax : Nat) (repositories : List (ω × Nat)) (workspace : ω) (uid : Nat) : Prop :=
  uidMin ≤ uid ∧ uid ≤ uidMax ∧
    ∀ other, other ≠ workspace → Table.get other repositories ≠ some uid

theorem free_iff (hunique : Table.Unique Prod.fst repositories) :
    Free uidMin uidMax repositories workspace uid ↔
      uidMin ≤ uid ∧ uid ≤ uidMax ∧ uid ∉ used uidMin uidMax repositories workspace := by
  constructor
  · rintro ⟨hlow, hhigh, hfree⟩
    refine ⟨hlow, hhigh, fun hused => ?_⟩
    obtain ⟨-, -, other, hne, hget⟩ := of_mem_used hunique hused
    exact hfree other hne hget
  · rintro ⟨hlow, hhigh, hunused⟩
    exact ⟨hlow, hhigh, fun other hne hget => hunused (mem_used hget hne hlow hhigh)⟩

/-- The selected uid is free; there is none only where no uid is. -/
theorem selected_spec (hunique : Table.Unique Prod.fst repositories) (currentUid : Nat) :
    (∀ uid, selected uidMin uidMax repositories workspace currentUid = some uid →
      Free uidMin uidMax repositories workspace uid ∧
        (Free uidMin uidMax repositories workspace currentUid → uid = currentUid)) ∧
    (selected uidMin uidMax repositories workspace currentUid = none →
      ∀ uid, ¬ Free uidMin uidMax repositories workspace uid) := by
  rw [selected]
  split
  next hkeep =>
    refine ⟨fun uid h => ?_, fun h => by cases h⟩
    obtain rfl := Option.some.inj h
    exact ⟨(free_iff hunique).mpr hkeep, fun _ => rfl⟩
  next hmove =>
    refine ⟨fun uid h => ⟨?_, fun hfree => absurd ((free_iff hunique).mp hfree) hmove⟩, ?_⟩
    · have hunused := List.find?_some h
      have hrange := List.mem_range'_1.mp (List.mem_of_find?_eq_some h)
      exact (free_iff hunique).mpr ⟨hrange.1, by omega, by simpa using hunused⟩
    · intro hnone uid hfree
      obtain ⟨hlow, hhigh, hunused⟩ := (free_iff hunique).mp hfree
      have hused := List.find?_eq_none.mp hnone uid (List.mem_range'_1.mpr ⟨hlow, by omega⟩)
      simp [hunused] at hused

/-- **One call** ends with a free uid, the workspace's own if that is free, or reports that there is
    none. -/
theorem assignWorkspaceOwner_spec (hunique : Table.Unique Prod.fst repositories)
    (hrange : uidMin ≤ uidMax) {currentUid : Nat}
    (hget : Table.get workspace repositories = some currentUid) :
    (∀ uid, assignWorkspaceOwner uidMin uidMax repositories workspace = .ok uid →
      Free uidMin uidMax repositories workspace uid) ∧
    (Free uidMin uidMax repositories workspace currentUid →
      assignWorkspaceOwner uidMin uidMax repositories workspace = .ok currentUid) ∧
    (assignWorkspaceOwner uidMin uidMax repositories workspace =
        .error "DeepSeek execution UID pool is exhausted" ↔
      ∀ uid, ¬ Free uidMin uidMax repositories workspace uid) := by
  have heq : assignWorkspaceOwner uidMin uidMax repositories workspace =
      match selected uidMin uidMax repositories workspace currentUid with
      | none => .error "DeepSeek execution UID pool is exhausted"
      | some uid => .ok uid := by
    rw [assignWorkspaceOwner, if_neg (Nat.not_lt.mpr hrange), hget]
  obtain ⟨hsome, hnone⟩ :=
    @selected_spec ω _ uidMin uidMax repositories workspace hunique currentUid
  rw [heq]
  cases hselected : selected uidMin uidMax repositories workspace currentUid with
  | none =>
      have hfull := hnone hselected
      refine ⟨?_, fun hfree => absurd hfree (hfull currentUid), iff_of_true rfl hfull⟩
      intro uid h
      cases h
  | some uid =>
      obtain ⟨hfree, hkeeps⟩ := hsome uid hselected
      refine ⟨?_, fun hcurrent => congrArg Except.ok (hkeeps hcurrent), ?_⟩
      · intro uid' h
        cases h
        exact hfree
      · exact iff_of_false (by rintro ⟨⟩) fun hfull => hfull uid hfree

/-- What a call answers about a workspace that is there, or not. -/
theorem free_of_ok (hunique : Table.Unique Prod.fst repositories)
    (h : assignWorkspaceOwner uidMin uidMax repositories workspace = .ok uid) :
    ∃ currentUid, Table.get workspace repositories = some currentUid ∧
      Free uidMin uidMax repositories workspace uid ∧
      (Free uidMin uidMax repositories workspace currentUid → uid = currentUid) := by
  have hcall := h
  rw [assignWorkspaceOwner] at h
  split at h
  next => cases h
  next hrange =>
    split at h
    next => cases h
    next currentUid hget =>
      obtain ⟨hfree, hkeeps, -⟩ := assignWorkspaceOwner_spec hunique (Nat.not_lt.mp hrange) hget
      refine ⟨currentUid, hget, hfree uid hcall, fun hcurrent => ?_⟩
      rw [hkeeps hcurrent, Except.ok.injEq] at hcall
      exact hcall.symm

/-! ## Runs -/

/-- The settled workspaces have owners in the range that no other settled one has. -/
structure Apart (uidMin uidMax : Nat) (s : OwnerState ω) : Prop where
  unique : Table.Unique Prod.fst s.repositories
  owned : ∀ w ∈ s.settled, ∃ uid, Table.get w s.repositories = some uid ∧ uidMin ≤ uid ∧
    uid ≤ uidMax ∧ ∀ w' ∈ s.settled, w' ≠ w → Table.get w' s.repositories ≠ some uid

theorem get_concat_of_some {new : ω} (h : Table.get workspace repositories = some uid) :
    Table.get workspace (repositories ++ [(new, owner)]) = some uid := by
  obtain ⟨row, hfound, hrow⟩ := Option.map_eq_some_iff.mp h
  rw [Table.get, Table.lookup_append, hfound]
  exact congrArg some hrow

theorem Apart.of_step {s t : OwnerState ω} {a : OwnerAction ω} (h : Apart uidMin uidMax s)
    (hstep : (ownerSystem uidMin uidMax).step s a = some t) : Apart uidMin uidMax t := by
  cases a with
  | create new owner =>
      simp only [ownerSystem, ownerStep] at hstep
      split at hstep
      next => cases hstep
      next hnew =>
        obtain rfl := Option.some.inj hstep
        refine ⟨Table.Unique.append h.unique (Table.get_eq_none.mp hnew), ?_⟩
        intro w hw
        obtain ⟨uid, hget, hlow, hhigh, hapart⟩ := h.owned w hw
        refine ⟨uid, get_concat_of_some hget, hlow, hhigh, ?_⟩
        intro w' hw' hne hsame
        obtain ⟨uid', hget', -⟩ := h.owned w' hw'
        rw [get_concat_of_some hget', Option.some.injEq] at hsame
        exact hapart w' hw' hne (hsame ▸ hget')
  | assign workspace completes =>
      simp only [ownerSystem, ownerStep] at hstep
      split at hstep
      next =>
        obtain rfl := Option.some.inj hstep
        exact h
      next uid hcall =>
        obtain rfl := Option.some.inj hstep
        obtain ⟨currentUid, hget, ⟨hlow, hhigh, hfree⟩, -⟩ := free_of_ok h.unique hcall
        refine ⟨h.unique.put, ?_⟩
        intro w hw
        simp only [Table.get_put]
        by_cases hself : w = workspace
        · refine ⟨uid, if_pos hself, hlow, hhigh, fun w' _ hne => ?_⟩
          rw [if_neg (hself ▸ hne)]
          exact hfree w' (hself ▸ hne)
        · obtain hw | hw := List.mem_cons.mp hw
          · exact absurd hw hself
          obtain ⟨owner, howner, hlow', hhigh', hapart⟩ := h.owned w hw
          refine ⟨owner, by rw [if_neg hself, howner], hlow', hhigh', fun w' hw' hne => ?_⟩
          split
          next =>
            -- The call did not take the uid of another repository.
            rintro ⟨⟩
            exact hfree w hself howner
          next hother =>
            obtain hw' | hw' := List.mem_cons.mp hw'
            · exact absurd hw' hother
            · exact hapart w' hw' hne

/-- What a call has returned stays the owner, and no other repository's. -/
structure Kept (uidMin uidMax : Nat) (s : OwnerState ω) : Prop where
  unique : Table.Unique Prod.fst s.repositories
  owners : ∀ w uid, (w, uid) ∈ s.returned → Table.get w s.repositories = some uid ∧
    Free uidMin uidMax s.repositories w uid

theorem Kept.of_step {s t : OwnerState ω} {a : OwnerAction ω} (h : Kept uidMin uidMax s)
    (hcalls : CallsOnly s a) (hstep : (ownerSystem uidMin uidMax).step s a = some t) :
    Kept uidMin uidMax t := by
  cases a with
  | create => exact absurd hcalls id
  | assign workspace completes =>
      simp only [ownerSystem, ownerStep] at hstep
      split at hstep
      next =>
        obtain rfl := Option.some.inj hstep
        exact h
      next uid hcall =>
        obtain rfl := Option.some.inj hstep
        obtain ⟨currentUid, hget, ⟨hlow, hhigh, hfree⟩, hkeeps⟩ := free_of_ok h.unique hcall
        refine ⟨h.unique.put, ?_⟩
        have hnew : Table.get workspace (Table.put workspace uid s.repositories) = some uid ∧
            Free uidMin uidMax (Table.put workspace uid s.repositories) workspace uid := by
          refine ⟨by rw [Table.get_put, if_pos rfl], hlow, hhigh, fun other hne => ?_⟩
          rw [Table.get_put, if_neg hne]
          exact hfree other hne
        have hold : ∀ w owner, (w, owner) ∈ s.returned →
            Table.get w (Table.put workspace uid s.repositories) = some owner ∧
              Free uidMin uidMax (Table.put workspace uid s.repositories) w owner := by
          intro w owner hw
          obtain ⟨howner, hlow', hhigh', hfree'⟩ := h.owners w owner hw
          by_cases hself : w = workspace
          · -- The workspace keeps what it has.
            subst hself
            rw [hget, Option.some.injEq] at howner
            subst howner
            rw [hkeeps ⟨hlow', hhigh', hfree'⟩] at hnew ⊢
            exact hnew
          · refine ⟨by rw [Table.get_put, if_neg hself, howner], hlow', hhigh', ?_⟩
            intro other hne
            rw [Table.get_put]
            split
            next =>
              rintro ⟨⟩
              exact hfree w hself howner
            next => exact hfree' other hne
        intro w owner hw
        cases completes with
        | false => exact hold w owner hw
        | true =>
            obtain hw | hw := List.mem_append.mp hw
            · exact hold w owner hw
            · obtain ⟨rfl, rfl⟩ := Prod.mk.inj (List.mem_singleton.mp hw)
              exact hnew

/-- **The uids of the workspaces.**  In any run, with new workspaces of any owner, those that a call
    has given an owner have distinct ones in the range.  When the workspaces are those of the
    start, no uid that any call has returned is returned for another workspace.  A call keeps a uid
    that is in the range and no other repository's, and answers for every occupancy of the range. -/
theorem assignWorkspaceOwner_runs (ω : Type) [DecidableEq ω] (uidMin uidMax : Nat) :
    (∀ s : OwnerState ω, (ownerSystem uidMin uidMax).Reachable System.anyStep s →
      ∀ w ∈ s.settled, ∃ uid, Table.get w s.repositories = some uid ∧ uidMin ≤ uid ∧
        uid ≤ uidMax ∧ ∀ w' ∈ s.settled, w' ≠ w → Table.get w' s.repositories ≠ some uid) ∧
    (∀ s : OwnerState ω, (ownerSystem uidMin uidMax).Reachable CallsOnly s →
      ∀ w uid w' uid', (w, uid) ∈ s.returned → (w', uid') ∈ s.returned →
        uidMin ≤ uid ∧ uid ≤ uidMax ∧ (w = w' ↔ uid = uid')) ∧
    ∀ (repositories : List (ω × Nat)) (workspace : ω) (currentUid : Nat),
      Table.Unique Prod.fst repositories → uidMin ≤ uidMax →
      Table.get workspace repositories = some currentUid →
      (Free uidMin uidMax repositories workspace currentUid →
        assignWorkspaceOwner uidMin uidMax repositories workspace = .ok currentUid) ∧
      ((∃ uid, assignWorkspaceOwner uidMin uidMax repositories workspace = .ok uid) ∨
        (assignWorkspaceOwner uidMin uidMax repositories workspace =
            .error "DeepSeek execution UID pool is exhausted" ∧
          ∀ uid, ¬ Free uidMin uidMax repositories workspace uid)) := by
  refine ⟨?_, ?_, ?_⟩
  · intro s h
    refine Apart.owned (h.invariant (Apart uidMin uidMax) ?_ fun s a t hs _ => hs.of_step)
    rintro s ⟨hunique, hsettled, -⟩
    exact ⟨hunique, by simp [hsettled]⟩
  · intro s h w uid w' uid' hw hw'
    have hkept : Kept uidMin uidMax s := by
      refine h.invariant (Kept uidMin uidMax) ?_ fun s a t hs hcalls => hs.of_step hcalls
      rintro s ⟨hunique, -, hreturned⟩
      exact ⟨hunique, by simp [hreturned]⟩
    obtain ⟨howner, hlow, hhigh, hfree⟩ := hkept.owners w uid hw
    obtain ⟨howner', -⟩ := hkept.owners w' uid' hw'
    refine ⟨hlow, hhigh, ?_, ?_⟩
    · rintro rfl
      rw [howner, Option.some.injEq] at howner'
      exact howner'
    · rintro rfl
      by_contra hne
      exact hfree w' (Ne.symm hne) howner'
  · intro repositories workspace currentUid hunique hrange hget
    obtain ⟨-, hkeeps, hfull⟩ := assignWorkspaceOwner_spec hunique hrange hget
    refine ⟨hkeeps, ?_⟩
    by_cases hfree : ∀ uid, ¬ Free uidMin uidMax repositories workspace uid
    · exact .inr ⟨hfull.mpr hfree, hfree⟩
    · left
      cases hcall : assignWorkspaceOwner uidMin uidMax repositories workspace with
      | ok uid => exact ⟨uid, rfl⟩
      | error message =>
          exfalso
          rw [assignWorkspaceOwner, if_neg (Nat.not_lt.mpr hrange), hget] at hcall hfull
          simp only at hcall hfull
          split at hcall
          next hnone =>
            rw [hnone] at hfull
            exact hfree (hfull.mp rfl)
          next => cases hcall

/-- Two new workspaces, owned by the user of the service. -/
def twoWorkspaces : OwnerState String := ⟨[("notes", 0), ("report", 0)], [], []⟩

theorem assignWorkspaceOwner_runs_twoWorkspaces : ∃ s,
    (ownerSystem 7 8).exec twoWorkspaces
      [.assign "notes" true, .assign "report" true, .assign "notes" true] = some s ∧
    ∀ uid uid', ("notes", uid) ∈ s.returned → ("report", uid') ∈ s.returned → uid ≠ uid' := by
  have hunique : Table.Unique Prod.fst twoWorkspaces.repositories := by
    unfold Table.Unique
    decide
  have hrun : ∃ s, (ownerSystem 7 8).exec twoWorkspaces
      [.assign "notes" true, .assign "report" true, .assign "notes" true] = some s := ⟨_, rfl⟩
  obtain ⟨s, hexec⟩ := hrun
  have hcalls : (ownerSystem 7 8).Allowed CallsOnly twoWorkspaces
      [.assign "notes" true, .assign "report" true, .assign "notes" true] := by
    iterate 3 refine System.allowed_cons trivial rfl ?_
    trivial
  refine ⟨s, hexec, ?_⟩
  intro uid uid' hnotes hreport heq
  have hreach : (ownerSystem 7 8).Reachable CallsOnly s :=
    ⟨twoWorkspaces, ⟨hunique, rfl, rfl⟩, System.path_of_allowed _ hcalls hexec⟩
  obtain ⟨-, -, hiff⟩ := (assignWorkspaceOwner_runs String 7 8).2.1 s hreach _ _ _ _ hnotes hreport
  exact absurd (hiff.mpr heq) (by decide)

end Owners

end WorkspaceOwner
end DeepSeek
end HermesPlatform
