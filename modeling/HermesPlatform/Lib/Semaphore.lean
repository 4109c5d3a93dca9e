/-
  HermesPlatform.Lib.Semaphore

  `asyncio.Semaphore`: a counter, and the futures of the coroutines that wait, in order.

  A release hands its permit to the first future that is pending.  The coroutine behind it
  runs later; until then the permit is neither in the counter nor with a coroutine, and it
  goes back to the counter if the coroutine is cancelled meanwhile.  `permits` counts both
  places, so that it changes only where a coroutine takes a permit or gives one back.
-/

import Mathlib.Data.List.Basic
import Mathlib.Data.List.Nodup

namespace HermesPlatform
namespace Asyncio

/-- A future of a waiting coroutine. -/
inductive Future where
  | pending
  | done
  | cancelled
deriving DecidableEq, Repr

/-- The coroutines have keys of a type `κ`. -/
structure Semaphore (κ : Type) where
  value : Nat
  waiters : List (κ × Future)
deriving DecidableEq, Repr

variable {κ : Type}

/-! ## The waiters -/

/-- Sets the result of the first future that is not done. -/
def setFirst : List (κ × Future) → Option (List (κ × Future))
  | [] => none
  | (k, .pending) :: rest => some ((k, .done) :: rest)
  | e :: rest => (setFirst rest).map (e :: ·)

/-- Removes the future of a key. -/
def remove [DecidableEq κ] (k : κ) :
    List (κ × Future) → Option (Future × List (κ × Future))
  | [] => none
  | e :: rest =>
      if e.1 = k then some (e.2, rest) else (remove k rest).map fun r => (r.1, e :: r.2)

/-- The permits that have been handed out and not been taken. -/
def handed (waiters : List (κ × Future)) : Nat := waiters.countP (·.2 = .done)

theorem setFirst_eq_some {l l' : List (κ × Future)} (h : setFirst l = some l') :
    ∃ a k b, l = a ++ (k, .pending) :: b ∧ l' = a ++ (k, .done) :: b := by
  induction l generalizing l' with
  | nil => cases h
  | cons e rest ih =>
      unfold setFirst at h
      split at h
      next => cases h
      next k rest' heq =>
        cases heq
        cases h
        exact ⟨[], k, rest, rfl, rfl⟩
      next e' rest' _ heq =>
        cases heq
        obtain ⟨r, hr, rfl⟩ := Option.map_eq_some_iff.mp h
        obtain ⟨a, k, b, rfl, rfl⟩ := ih hr
        exact ⟨e :: a, k, b, rfl, rfl⟩

theorem remove_eq_some [DecidableEq κ] {k : κ} {f : Future} {l l' : List (κ × Future)}
    (h : remove k l = some (f, l')) : ∃ a b, l = a ++ (k, f) :: b ∧ l' = a ++ b := by
  induction l generalizing l' with
  | nil => cases h
  | cons e rest ih =>
      unfold remove at h
      split at h
      next hkey =>
        cases h
        rw [← hkey]
        exact ⟨[], rest, rfl, rfl⟩
      next =>
        obtain ⟨⟨g, r⟩, hr, heq⟩ := Option.map_eq_some_iff.mp h
        cases heq
        obtain ⟨a, b, rfl, rfl⟩ := ih hr
        exact ⟨e :: a, b, rfl, rfl⟩

theorem handed_setFirst {l l' : List (κ × Future)} (h : setFirst l = some l') :
    handed l' = handed l + 1 := by
  obtain ⟨a, k, b, rfl, rfl⟩ := setFirst_eq_some h
  simp [handed]
  omega

theorem keys_setFirst {l l' : List (κ × Future)} (h : setFirst l = some l') :
    l'.map Prod.fst = l.map Prod.fst := by
  obtain ⟨a, k, b, rfl, rfl⟩ := setFirst_eq_some h
  simp

theorem handed_remove [DecidableEq κ] {k : κ} {f : Future} {l l' : List (κ × Future)}
    (h : remove k l = some (f, l')) : handed l = handed l' + if f = .done then 1 else 0 := by
  obtain ⟨a, b, rfl, rfl⟩ := remove_eq_some h
  simp only [handed, List.countP_append, List.countP_cons, decide_eq_true_eq]
  omega

/-- The keys that remain, when they were distinct. -/
theorem keys_remove [DecidableEq κ] {k : κ} {f : Future} {l l' : List (κ × Future)}
    (hnodup : (l.map Prod.fst).Nodup) (h : remove k l = some (f, l')) :
    (l'.map Prod.fst).Nodup ∧ ∀ j ∈ l'.map Prod.fst, j ∈ l.map Prod.fst ∧ j ≠ k := by
  obtain ⟨a, b, rfl, rfl⟩ := remove_eq_some h
  rw [List.map_append, List.map_cons, List.nodup_middle] at hnodup
  rw [List.map_append]
  have hnot := List.nodup_cons.mp hnodup
  refine ⟨hnot.2, ?_⟩
  intro j hj
  refine ⟨?_, fun hjk => hnot.1 (hjk ▸ hj)⟩
  rw [List.map_append, List.map_cons]
  exact List.mem_append.mpr ((List.mem_append.mp hj).imp_right (List.mem_cons_of_mem _))

namespace Semaphore

variable (s : Semaphore κ)

/-! ## The operations -/

def locked : Bool := s.value = 0 || s.waiters.any (·.2 ≠ .cancelled)

/-- `_wake_up_next`, which says whether there was one to wake up. -/
def wakeUpNext : Option (Semaphore κ) :=
  (setFirst s.waiters).map fun waiters => ⟨s.value - 1, waiters⟩

/-- Wakes up as many as are allowed. -/
def wakeUp : Nat → Semaphore κ → Semaphore κ
  | 0, s => s
  | fuel + 1, s => if 0 < s.value then (s.wakeUpNext.map (wakeUp fuel)).getD s else s

def release : Semaphore κ :=
  (wakeUpNext ⟨s.value + 1, s.waiters⟩).getD ⟨s.value + 1, s.waiters⟩

/-- `acquire` up to its first suspension: `true` where it has a permit at once. -/
def acquire (k : κ) : Bool × Semaphore κ :=
  if s.locked then (false, ⟨s.value, s.waiters ++ [(k, .pending)]⟩)
  else (true, ⟨s.value - 1, s.waiters⟩)

/-- The coroutine is cancelled: its future is, unless it is done. -/
def cancel [DecidableEq κ] (k : κ) : Semaphore κ :=
  ⟨s.value, s.waiters.map fun e => if e.1 = k ∧ e.2 = .pending then (e.1, .cancelled) else e⟩

/-- `acquire` from its suspension to its end, when the future is not pending: `true` where it
    returns, `false` where `CancelledError` is raised in it. -/
def resume [DecidableEq κ] (k : κ) (cancelled : Bool) : Option (Bool × Semaphore κ) :=
  (remove k s.waiters).bind fun r =>
    match r.1 with
    | .pending => none
    | .cancelled => some (false, wakeUp s.value ⟨s.value, r.2⟩)
    | .done =>
        if cancelled then some (false, wakeUp (s.value + 1) ⟨s.value + 1, r.2⟩)
        else some (true, wakeUp s.value ⟨s.value, r.2⟩)

/-! ## Accounting -/

/-- The permits that no coroutine has. -/
def permits : Nat := s.value + handed s.waiters

variable {s}

theorem permits_wakeUpNext {s' : Semaphore κ} (hpos : 0 < s.value)
    (h : s.wakeUpNext = some s') : s'.permits = s.permits := by
  obtain ⟨waiters, hset, rfl⟩ := Option.map_eq_some_iff.mp h
  have hhanded : handed waiters = handed s.waiters + 1 := handed_setFirst hset
  simp only [permits]
  omega

theorem keys_wakeUpNext {s' : Semaphore κ} (h : s.wakeUpNext = some s') :
    s'.waiters.map Prod.fst = s.waiters.map Prod.fst := by
  obtain ⟨waiters, hset, rfl⟩ := Option.map_eq_some_iff.mp h
  exact keys_setFirst hset

theorem permits_wakeUp (fuel : Nat) (s : Semaphore κ) :
    (wakeUp fuel s).permits = s.permits := by
  induction fuel generalizing s with
  | zero => rfl
  | succ fuel ih =>
      unfold wakeUp
      split
      next hpos =>
        cases hnext : s.wakeUpNext with
        | none => rfl
        | some s' =>
            rw [Option.map_some, Option.getD_some, ih]
            exact permits_wakeUpNext hpos hnext
      next => rfl

theorem keys_wakeUp (fuel : Nat) (s : Semaphore κ) :
    (wakeUp fuel s).waiters.map Prod.fst = s.waiters.map Prod.fst := by
  induction fuel generalizing s with
  | zero => rfl
  | succ fuel ih =>
      unfold wakeUp
      split
      next =>
        cases hnext : s.wakeUpNext with
        | none => rfl
        | some s' =>
            rw [Option.map_some, Option.getD_some, ih]
            exact keys_wakeUpNext hnext
      next => rfl

theorem permits_release : s.release.permits = s.permits + 1 := by
  have hadd : permits ⟨s.value + 1, s.waiters⟩ = s.permits + 1 := by
    simp only [permits]
    omega
  unfold release
  cases hnext : wakeUpNext ⟨s.value + 1, s.waiters⟩ with
  | none => exact hadd
  | some s' =>
      rw [Option.getD_some, permits_wakeUpNext (Nat.succ_pos _) hnext]
      exact hadd

theorem keys_release : s.release.waiters.map Prod.fst = s.waiters.map Prod.fst := by
  unfold release
  cases hnext : wakeUpNext ⟨s.value + 1, s.waiters⟩ with
  | none => rfl
  | some s' =>
      have hkeys := keys_wakeUpNext hnext
      exact hkeys

/-- A coroutine that has a permit at once has taken it from the counter. -/
theorem acquire_true {k : κ} {s' : Semaphore κ} (h : s.acquire k = (true, s')) :
    s.permits = s'.permits + 1 ∧ s'.waiters = s.waiters := by
  unfold acquire at h
  split at h
  next => cases h
  next hlocked =>
    cases h
    have hpos : s.value ≠ 0 := by
      intro hzero
      simp [locked, hzero] at hlocked
    refine ⟨?_, rfl⟩
    simp only [permits]
    omega

theorem acquire_false {k : κ} {s' : Semaphore κ} (h : s.acquire k = (false, s')) :
    s'.permits = s.permits ∧ s'.waiters = s.waiters ++ [(k, .pending)] := by
  unfold acquire at h
  split at h
  next =>
    cases h
    exact ⟨by simp [permits, handed], rfl⟩
  next => cases h

section Keys

variable [DecidableEq κ]

theorem permits_cancel (k : κ) : (s.cancel k).permits = s.permits := by
  have hcount : handed (s.cancel k).waiters = handed s.waiters := by
    rw [handed, cancel, List.countP_map]
    refine List.countP_congr fun e _ => ?_
    simp only [Function.comp_apply]
    split
    next hpending => simp [hpending.2]
    next => rfl
  rw [permits, hcount]
  rfl

theorem keys_cancel (k : κ) : (s.cancel k).waiters.map Prod.fst = s.waiters.map Prod.fst := by
  rw [cancel, List.map_map]
  refine List.map_congr_left fun e _ => ?_
  simp only [Function.comp_apply]
  split <;> rfl

/-- A coroutine that returns has taken the permit that it was handed; one that is cancelled
    leaves it. -/
theorem permits_resume {k : κ} {cancelled ok : Bool} {s' : Semaphore κ}
    (h : s.resume k cancelled = some (ok, s')) : s.permits = s'.permits + if ok then 1 else 0 := by
  obtain ⟨⟨f, rest⟩, hremove, h⟩ := Option.bind_eq_some_iff.mp h
  have hhanded := handed_remove hremove
  have hpermits : s.permits = s.value + handed s.waiters := rfl
  cases f with
  | pending => cases h
  | cancelled =>
      cases h
      rw [permits_wakeUp, hpermits, hhanded]
      rfl
  | done =>
      simp only at h
      split at h
      next =>
        cases h
        rw [permits_wakeUp, hpermits, hhanded]
        simp only [permits, if_true, Bool.false_eq_true, if_false]
        omega
      next =>
        cases h
        rw [permits_wakeUp, hpermits, hhanded]
        simp only [permits, if_true]
        omega

theorem keys_resume {k : κ} {cancelled ok : Bool} {s' : Semaphore κ}
    (hnodup : (s.waiters.map Prod.fst).Nodup) (h : s.resume k cancelled = some (ok, s')) :
    (s'.waiters.map Prod.fst).Nodup ∧
      ∀ j ∈ s'.waiters.map Prod.fst, j ∈ s.waiters.map Prod.fst ∧ j ≠ k := by
  obtain ⟨⟨f, rest⟩, hremove, h⟩ := Option.bind_eq_some_iff.mp h
  have hkeys := keys_remove hnodup hremove
  cases f with
  | pending => cases h
  | cancelled =>
      cases h
      rwa [keys_wakeUp]
  | done =>
      simp only at h
      split at h
      next =>
        cases h
        rwa [keys_wakeUp]
      next =>
        cases h
        rwa [keys_wakeUp]

end Keys

/-- Without waiters every permit is in the counter. -/
theorem permits_of_waiters_eq_nil (h : s.waiters = []) : s.permits = s.value := by
  simp [permits, handed, h]

end Semaphore

end Asyncio
end HermesPlatform
