/-
  HermesPlatform.Orchestration.Scan

  A pass of `reconcile_run` on any objects.

  `PassSpec` describes a pass over the tasks of a complete run.  A pass may also
  hold objects of a run that is still being submitted; `ScanSpec` says what one
  turn of the loop over the children does to such objects, `scanChildren_rule`
  carries a property of them through the loop, and `FirstCases` and `SecondCases`
  list the ends of the two phases.
-/

import HermesPlatform.Orchestration.Reconcile

namespace HermesPlatform
namespace Orchestration

open Python

/-! ## One turn -/

/-- How the body of the loop ends for a task. -/
inductive ScanSpec (root : AgentTask) (acc : Promotion) (task : AgentTask) :
    Except (String × List AgentTask) Promotion → Prop where
  | kept : ScanSpec root acc task (.ok acc)
  /-- The task waits for a key that no child has. -/
  | missing (error key : String) (wait : task.status = .waitingChild) (mem : key ∈ task.dependsOn)
      (absent : (byKey (childrenOf root acc.tasks)).get? key = none) :
      ScanSpec root acc task (.error (error, acc.tasks))
  /-- The child `d` the task waits for has failed or was cancelled. -/
  | cancelled (d : AgentTask) (key : String) (wait : task.status = .waitingChild)
      (mem : key ∈ task.dependsOn) (child : d ∈ childrenOf root acc.tasks)
      (nodeKey : d.nodeKey = some key) (ended : d.status = .failed ∨ d.status = .cancelled) :
      ScanSpec root acc task
        (.ok { acc with tasks := updateTask task.id cancelDependent acc.tasks })
  | promoted (changed : List Nat) (wait : task.status = .waitingChild) :
      ScanSpec root acc task
        (.ok
          { tasks := updateTask task.id (fun t => { t with status := promotedStatus task.toTaskSpec })
              acc.tasks
            changed := changed })

/-- An entry of `by_key` is a child with that key. -/
theorem get?_byKey_sound {children : List AgentTask} {key : String} {d : AgentTask}
    (h : (byKey children).get? key = some d) : d ∈ children ∧ d.nodeKey = some key := by
  have hmem := Dict.mem_of_mem_ofPairs (Dict.mem_of_get? h)
  obtain ⟨t, ht, hpair⟩ := List.mem_filterMap.mp hmem
  obtain ⟨k, hk, heq⟩ := Option.map_eq_some_iff.mp hpair
  cases heq
  exact ⟨ht, (truthy_eq_some.mp hk).1⟩

theorem scanChild_cases (root : AgentTask) (acc : Promotion) (task : AgentTask) :
    ScanSpec root acc task (scanChild root acc task) := by
  unfold scanChild
  split
  · exact .kept
  rename_i hwait
  have hwait := not_not.mp hwait
  simp only
  split
  · rename_i hmissing
    obtain ⟨found, hfound, hnone⟩ := List.any_eq_true.mp hmissing
    obtain ⟨key, hkey, rfl⟩ := List.mem_map.mp hfound
    exact .missing _ key hwait hkey (Option.isNone_iff_eq_none.mp hnone)
  · split
    · rename_i hended
      obtain ⟨d, hd, hstatus⟩ := List.any_eq_true.mp hended
      -- `d` was found under one of the keys the task waits for.
      obtain ⟨key, hkey, hget⟩ := List.mem_map.mp (List.reduceOption_mem_iff.mp hd)
      obtain ⟨hchild, hnode⟩ := get?_byKey_sound hget
      exact .cancelled d key hwait hkey hchild hnode (by simpa using hstatus)
    · split
      · exact .promoted _ hwait
      · exact .kept

/-! ## The loop -/

/-- A property of the objects that every turn keeps holds of the objects the loop
    ends or raises with. -/
theorem scanChildren_rule {root : AgentTask} {children : List AgentTask}
    {P : List AgentTask → Prop}
    (hstep : ∀ t ∈ children, ∀ acc acc', P acc.tasks → ScanSpec root acc t (.ok acc') → P acc'.tasks)
    (acc : Promotion) (h : P acc.tasks) :
    (∀ acc', foldEach (scanChild root) acc children = .ok acc' → P acc'.tasks) ∧
      ∀ e, foldEach (scanChild root) acc children = .error e → P e.2 := by
  refine foldEach_rule (P := fun acc : Promotion => P acc.tasks)
    (Q := fun e : String × List AgentTask => P e.2) ?_ ?_ h
  · intro t ht acc acc' hacc hturn
    have hcases := scanChild_cases root acc t
    rw [hturn] at hcases
    exact hstep t ht acc acc' hacc hcases
  · intro t ht acc e hacc hturn
    have hcases := scanChild_cases root acc t
    rw [hturn] at hcases
    -- Only a missing dependency raises, with the objects as they are.
    cases hcases with
    | missing error key wait mem absent => exact hacc

/-- What the loop can do to an object: nothing, or to set the status of a child
    that waits.  Its attempts, its session and its execution stay as they are. -/
structure Scanned (children : List AgentTask) (l c : AgentTask) : Prop where
  spec : c.toTaskSpec = l.toTaskSpec
  attempt : c.attempt = l.attempt
  session : c.session = l.session
  execution : c.execution = l.execution
  status : c.status = l.status ∨
    ((∃ t ∈ children, t.id = l.id ∧ t.status = .waitingChild) ∧
      (c.status = .cancelled ∨ c.status = .pending ∨ c.status = .humanReview))

theorem Scanned.refl (children : List AgentTask) (t : AgentTask) : Scanned children t t :=
  ⟨rfl, rfl, rfl, rfl, Or.inl rfl⟩

/-- A turn for a waiting child sets its status. -/
theorem Scanned.update {children : List AgentTask} {l b t : AgentTask} {error : Option String}
    {status : TaskStatus} (h : Scanned children l b) (ht : t ∈ children)
    (hwait : t.status = .waitingChild) (hid : b.id = t.id)
    (hstatus : status = .cancelled ∨ status = .pending ∨ status = .humanReview) :
    Scanned children l { b with status := status, error := error } := by
  have hbl : b.id = l.id := congrArg TaskSpec.id h.spec
  exact ⟨h.spec, h.attempt, h.session, h.execution,
    Or.inr ⟨⟨t, ht, hid.symm.trans hbl, hwait⟩, hstatus⟩⟩

theorem scanned_turn {root : AgentTask} {children tasks : List AgentTask} {t : AgentTask}
    (ht : t ∈ children) {acc acc' : Promotion} (h : Evolves (Scanned children) tasks acc.tasks)
    (hturn : ScanSpec root acc t (.ok acc')) : Evolves (Scanned children) tasks acc'.tasks := by
  cases hturn with
  | kept => exact h
  | cancelled d key wait mem child nodeKey ended =>
      exact evolves_update h fun l b hlb hid => hlb.update ht wait hid (Or.inl rfl)
  | promoted changed wait =>
      refine evolves_update h fun l b hlb hid => ?_
      have hstatus := promotedStatus_cases t.toTaskSpec
      exact hlb.update ht wait hid (Or.inr hstatus.symm)

/-! ## The phases -/

theorem rootOf_mem {tasks : List AgentTask} {r : AgentTask} (h : rootOf tasks = some r) :
    r ∈ tasks ∧ r.parentTaskId = none := by
  have hparent := List.find?_some h
  exact ⟨List.mem_of_find?_eq_some h, by simpa using hparent⟩

/-- How the first phase ends. -/
inductive FirstCases (rows : RunRows) : FirstPhase → Prop where
  | rootless (absent : rootOf rows.tasks = none) :
      FirstCases rows (.finished { rows with run :=
        { rows.run with status := .failed, error := some "orchestration root task is missing" } })
  | failed (root t : AgentTask) (error : String) (found : rootOf rows.tasks = some root)
      (mem : t ∈ childrenOf root rows.tasks) (status : t.status = .failed) :
      FirstCases rows (.finished (failRun rows root error))
  | raised (root : AgentTask) (error : String) (tasks : List AgentTask)
      (found : rootOf rows.tasks = some root)
      (healthy : ∀ t ∈ childrenOf root rows.tasks, t.status ≠ .failed)
      (loop : foldEach (scanChild root) ⟨rows.tasks, []⟩ (childrenOf root rows.tasks) =
        .error (error, tasks)) :
      FirstCases rows (.finished (failRun { rows with tasks := tasks } root error))
  | promoted (root : AgentTask) (promotion : Promotion) (found : rootOf rows.tasks = some root)
      (healthy : ∀ t ∈ childrenOf root rows.tasks, t.status ≠ .failed)
      (loop : foldEach (scanChild root) ⟨rows.tasks, []⟩ (childrenOf root rows.tasks) =
        .ok promotion) :
      FirstCases rows (.promoted { rows with tasks := promotion.tasks } promotion.changed)

theorem firstPhase_cases (rows : RunRows) : FirstCases rows (firstPhase rows) := by
  unfold firstPhase
  split
  · rename_i habsent
    exact .rootless habsent
  · rename_i root hfound
    simp only
    split
    · rename_i t hfind
      have hstatus := List.find?_some hfind
      exact .failed root t _ hfound (List.mem_of_find?_eq_some hfind) (by simpa using hstatus)
    · rename_i hnone
      have hhealthy : ∀ t ∈ childrenOf root rows.tasks, t.status ≠ .failed := by
        simpa using List.find?_eq_none.mp hnone
      split
      · rename_i error tasks hloop
        exact .raised root error tasks hfound hhealthy hloop
      · rename_i promotion hloop
        exact .promoted root promotion hfound hhealthy hloop

/-- How the second phase ends. -/
inductive SecondCases (rows out : RunRows) : Prop where
  | kept (tasks : out.tasks = rows.tasks) (run : out.run.status ≠ .failed ∨ out.run = rows.run)
  /-- The manager task is put into the queue. -/
  | released (root : AgentTask) (prompt : String) (found : rootOf rows.tasks = some root)
      (nonempty : childrenOf root rows.tasks ≠ [])
      (succeeded : ∀ t ∈ childrenOf root rows.tasks, t.status = .succeeded)
      (waiting : root.status = .waitingChild) (run : out.run.status = .running)
      (tasks : out.tasks = updateTask root.id (releaseRoot prompt) rows.tasks)
  | failed (root : AgentTask) (error : String) (found : rootOf rows.tasks = some root)
      (status : root.status = .failed) (run : out.run.status = .failed)
      (tasks : out.tasks = updateTask root.id (failRoot error) rows.tasks)

theorem secondPhase_cases (rows : RunRows) : SecondCases rows (secondPhase rows).1 := by
  unfold secondPhase
  split
  · exact .kept rfl (Or.inr rfl)
  · rename_i root hfound
    simp only
    split
    · exact .kept rfl (Or.inl (by simp))
    · split
      · rename_i hall
        obtain ⟨⟨hne, hsucceeded⟩, hwaiting⟩ := hall
        exact .released root _ hfound hne (by simpa using hsucceeded) hwaiting rfl rfl
      · split
        · exact .kept rfl (Or.inl (by simp))
        · split
          · rename_i hfailed
            exact .failed root _ hfound hfailed rfl rfl
          · exact .kept rfl (Or.inl (by simp))

end Orchestration
end HermesPlatform
