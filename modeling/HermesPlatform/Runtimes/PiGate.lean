/-
  HermesPlatform.Runtimes.PiGate

  The `ConcurrencyGate` of the Pi runtime: a semaphore whose slots are handed over to
  the waiters of a queue.

  A waiter leaves the queue when it is granted a slot, when its timer fires or when its
  signal aborts.  Each event of the loop is one step; the timers and the listeners that
  are pending are part of the state, since an event can only happen while they are.
-/

import HermesPlatform.Lib.Transition
import Mathlib.Data.List.Count
import Mathlib.Data.List.Nodup

namespace HermesPlatform
namespace Pi

open Transition

/-! ## The gate -/

/-- How the promise of `acquire` is settled. -/
inductive Settlement where
  | granted
  | timedOut
  | cancelled
deriving DecidableEq, Repr

/-- The calls of `acquire` are numbered as they arrive. -/
structure ConcurrencyGate where
  active : Nat
  queue : List Nat
  /-- The time-outs that the event loop still holds. -/
  timers : List Nat
  /-- The abort listeners that are registered. -/
  listeners : List Nat
  arrivals : Nat
  /-- Every call of a `resolve` or a `reject`, in order. -/
  log : List (Nat × Settlement)
  /-- The `release` functions that have been called. -/
  released : List Nat
deriving DecidableEq, Repr

namespace ConcurrencyGate

/-- `new ConcurrencyGate(..)`. -/
def new : ConcurrencyGate := ⟨0, [], [], [], 0, [], []⟩

variable (gate : ConcurrencyGate)

def settle (i : Nat) (settlement : Settlement) : ConcurrencyGate :=
  { gate with log := gate.log ++ [(i, settlement)] }

/-- `clearTimeout` and `removeEventListener`. -/
def disarm (i : Nat) : ConcurrencyGate :=
  { gate with timers := gate.timers.filter (· ≠ i), listeners := gate.listeners.filter (· ≠ i) }

/-- The `remove` of an entry. -/
def remove (i : Nat) : ConcurrencyGate := { gate with queue := gate.queue.filter (· ≠ i) }

/-- `acquire(signal)`; `signal` says whether it has aborted, if there is one. -/
def acquire (limit : Nat) (signal : Option Bool) : ConcurrencyGate :=
  let i := gate.arrivals
  let gate := { gate with arrivals := gate.arrivals + 1 }
  if signal = some true then gate.settle i .cancelled
  else if gate.active < limit then { gate with active := gate.active + 1 }.settle i .granted
  else
    { gate with
      queue := gate.queue ++ [i]
      timers := gate.timers ++ [i]
      listeners := if signal.isSome then gate.listeners ++ [i] else gate.listeners }

/-- `release()`. -/
def release : ConcurrencyGate :=
  match gate.queue with
  | next :: rest => ({ gate with queue := rest }.disarm next).settle next .granted
  | [] => { gate with active := max 0 (gate.active - 1) }

/-- The signal of a caller aborts; nothing happens where nobody listens to it. -/
def abort (i : Nat) : ConcurrencyGate :=
  if i ∈ gate.listeners then ((gate.disarm i).remove i).settle i .cancelled else gate

/-- How the call `i` of `acquire` has been settled. -/
def settledAs (i : Nat) : Option Settlement := (gate.log.find? (·.1 = i)).map Prod.snd

/-- The callers that were granted a slot. -/
def grants : List Nat := gate.log.filterMap fun e => if e.2 = .granted then some e.1 else none

/-- Those that have not released it. -/
def holders : List Nat := gate.grants.filter (· ∉ gate.released)

variable {gate} {i : Nat} {settlement : Settlement}

theorem grants_settle_granted : (gate.settle i .granted).grants = gate.grants ++ [i] := by
  simp [grants, settle]

theorem grants_settle_of_ne (h : settlement ≠ .granted) :
    (gate.settle i settlement).grants = gate.grants := by
  simp [grants, settle, h]

theorem holders_settle_granted (h : i ∉ gate.released) :
    (gate.settle i .granted).holders = gate.holders ++ [i] := by
  have hself : [i].filter (· ∉ gate.released) = [i] := by simp [h]
  rw [holders, grants_settle_granted, List.filter_append]
  exact congrArg (gate.holders ++ ·) hself

theorem holders_settle_of_ne (h : settlement ≠ .granted) :
    (gate.settle i settlement).holders = gate.holders := by
  simp only [holders, grants_settle_of_ne h]
  rfl

theorem countP_settle (j : Nat) :
    (gate.settle i settlement).log.countP (·.1 = j)
      = gate.log.countP (·.1 = j) + if i = j then 1 else 0 := by
  simp [settle, List.countP_append, List.countP_singleton]

theorem forall_mem_settle {p : Nat × Settlement → Prop} :
    (∀ e ∈ (gate.settle i settlement).log, p e)
      ↔ (∀ e ∈ gate.log, p e) ∧ p (i, settlement) := by
  simp only [settle, List.forall_mem_append, List.forall_mem_singleton]

/-- The one who releases is no longer a holder; the others are. -/
theorem length_holders_release (hnodup : gate.grants.Nodup) (h : i ∈ gate.holders) :
    { gate with released := gate.released ++ [i] }.holders.length + 1 = gate.holders.length := by
  have hfilter : { gate with released := gate.released ++ [i] }.holders
      = gate.holders.filter (· ≠ i) := by
    simp only [holders, grants, List.filter_filter]
    apply List.filter_congr
    intro j _
    by_cases hj : j ∈ gate.released <;> simp [hj]
  have herase : gate.holders.filter (· ≠ i) = gate.holders.erase i := by
    have hholders : gate.holders.Nodup := hnodup.filter _
    rw [hholders.erase_eq_filter]
    apply List.filter_congr
    intro j _
    simp [bne, beq_eq_decide]
  rw [hfilter, herase, List.length_erase_of_mem h]
  have := List.length_pos_of_mem h
  omega

end ConcurrencyGate

inductive GateAction where
  | acquire (signal : Option Bool)
  /-- The holder calls its `release`. -/
  | release (i : Nat)
  /-- The callback of `setTimeout`. -/
  | timeout (i : Nat)
  /-- The signal of the caller aborts. -/
  | abort (i : Nat)
deriving DecidableEq, Repr

def gateStep (limit : Nat) (gate : ConcurrencyGate) : GateAction → Option ConcurrencyGate
  | .acquire signal => some (gate.acquire limit signal)
  | .release i =>
      if i ∈ gate.holders then some { gate with released := gate.released ++ [i] }.release
      else none
  | .timeout i =>
      if i ∈ gate.timers then some (((gate.disarm i).remove i).settle i .timedOut) else none
  | .abort i => if i < gate.arrivals then some (gate.abort i) else none

/-- Any order of calls, releases, time-outs and aborts; a holder releases once. -/
def gateSystem (limit : Nat) : System ConcurrencyGate GateAction where
  init gate := gate = .new
  step := gateStep limit

/-! ## The law -/

/-- What the gate is for. -/
structure GateSafe (limit : Nat) (gate : ConcurrencyGate) : Prop where
  /-- The slots in use are those of the holders. -/
  active : gate.active = gate.holders.length
  bounded : gate.active ≤ limit
  /-- Nobody waits while a slot is free. -/
  full : gate.queue ≠ [] → gate.active = limit
  /-- A caller waits, with its timer pending and unsettled, or it is settled once and
      neither its timer nor its listener is left. -/
  settled : ∀ i < gate.arrivals,
    (i ∈ gate.queue ∧ i ∈ gate.timers ∧ ∀ e ∈ gate.log, e.1 ≠ i) ∨
      (i ∉ gate.queue ∧ i ∉ gate.timers ∧ i ∉ gate.listeners ∧
        gate.log.countP (·.1 = i) = 1)
  /-- After a grant only later callers are settled. -/
  order : gate.log.Pairwise fun a b => a.2 = .granted → a.1 < b.1

/-! ## The invariant -/

/-- What every step keeps. -/
structure GateInv (limit : Nat) (gate : ConcurrencyGate) : Prop where
  active : gate.active = gate.holders.length
  bounded : gate.active ≤ limit
  full : gate.queue ≠ [] → gate.active = limit
  waits : ∀ i ∈ gate.queue, i < gate.arrivals ∧ i ∈ gate.timers ∧ ∀ e ∈ gate.log, e.1 ≠ i
  timed : ∀ i ∈ gate.timers, i ∈ gate.queue
  heard : ∀ i ∈ gate.listeners, i ∈ gate.queue
  logged : ∀ e ∈ gate.log, e.1 < gate.arrivals
  once : ∀ i < gate.arrivals, i ∉ gate.queue → gate.log.countP (·.1 = i) = 1
  sorted : gate.queue.Pairwise (· < ·)
  ahead : ∀ e ∈ gate.log, e.2 = .granted → ∀ i ∈ gate.queue, e.1 < i
  order : gate.log.Pairwise fun a b => a.2 = .granted → a.1 < b.1
  released : ∀ i ∈ gate.released, i ∈ gate.grants

namespace GateInv

variable {limit : Nat} {gate : ConcurrencyGate}

theorem mem_grants {i : Nat} : i ∈ gate.grants ↔ (i, Settlement.granted) ∈ gate.log := by
  simp only [ConcurrencyGate.grants, List.mem_filterMap, Option.ite_none_right_eq_some,
    Option.some.injEq]
  constructor
  · rintro ⟨⟨j, st⟩, he, rfl, rfl⟩
    exact he
  · intro h
    exact ⟨_, h, rfl, rfl⟩

/-- Grants follow the order of arrival, so that nobody is granted twice. -/
theorem grants_nodup (h : GateInv limit gate) : gate.grants.Nodup := by
  have hsorted : gate.grants.Pairwise (· < ·) := by
    apply List.Pairwise.filterMap _ _ h.order
    intro a b hab i hi j hj
    simp only [Option.ite_none_right_eq_some, Option.some.injEq] at hi hj
    rw [← hi.2, ← hj.2]
    exact hab hi.1
  exact hsorted.imp fun hlt => Nat.ne_of_lt hlt

/-- The log after one more settlement. -/
theorem order_settle (h : GateInv limit gate) {i : Nat} {settlement : Settlement}
    (hlater : ∀ e ∈ gate.log, e.2 = .granted → e.1 < i) :
    (gate.settle i settlement).log.Pairwise fun a b => a.2 = .granted → a.1 < b.1 := by
  simp only [ConcurrencyGate.settle, List.pairwise_append, List.pairwise_singleton,
    List.mem_singleton]
  refine ⟨h.order, trivial, ?_⟩
  rintro a ha b rfl
  exact hlater a ha

/-- Settled for the first time, the others as before. -/
theorem once_settle {i j : Nat} {settlement : Settlement}
    (hnew : ∀ e ∈ gate.log, e.1 ≠ i) (hj : j ≠ i → gate.log.countP (·.1 = j) = 1) :
    (gate.settle i settlement).log.countP (·.1 = j) = 1 := by
  rw [ConcurrencyGate.countP_settle]
  by_cases hij : i = j
  · subst hij
    have hzero : gate.log.countP (·.1 = i) = 0 := by
      rw [List.countP_eq_zero]
      intro e he
      simpa using hnew e he
    simp [hzero]
  · simp [hij, hj (Ne.symm hij)]

theorem new_unlogged (h : GateInv limit gate) : ∀ e ∈ gate.log, e.1 ≠ gate.arrivals :=
  fun e he => Nat.ne_of_lt (h.logged e he)

theorem new_unreleased (h : GateInv limit gate) {i : Nat} (hi : ∀ e ∈ gate.log, e.1 ≠ i) :
    i ∉ gate.released :=
  fun hr => hi _ (mem_grants.mp (h.released i hr)) rfl

theorem init : GateInv limit .new where
  active := rfl
  bounded := Nat.zero_le _
  full := by simp [ConcurrencyGate.new]
  waits := by simp [ConcurrencyGate.new]
  timed := by simp [ConcurrencyGate.new]
  heard := by simp [ConcurrencyGate.new]
  logged := by simp [ConcurrencyGate.new]
  once := by simp [ConcurrencyGate.new]
  sorted := .nil
  ahead := by simp [ConcurrencyGate.new]
  order := .nil
  released := by simp [ConcurrencyGate.new]

/-- A waiter whose timer fires or whose signal aborts. -/
theorem reject (h : GateInv limit gate) {i : Nat} (hi : i ∈ gate.queue) {settlement : Settlement}
    (hne : settlement ≠ .granted) :
    GateInv limit (((gate.disarm i).remove i).settle i settlement) := by
  have hunlogged := (h.waits i hi).2.2
  have hqueue : ∀ j, j ∈ (((gate.disarm i).remove i).settle i settlement).queue
      ↔ j ∈ gate.queue ∧ j ≠ i := by
    intro j
    simp [ConcurrencyGate.settle, ConcurrencyGate.remove, ConcurrencyGate.disarm]
  constructor
  case active =>
    rw [ConcurrencyGate.holders_settle_of_ne hne]
    exact h.active
  case bounded => exact h.bounded
  case full => exact fun _ => h.full (List.ne_nil_of_mem hi)
  case waits =>
    intro j hj
    obtain ⟨hj, hji⟩ := (hqueue j).mp hj
    obtain ⟨hlt, htimer, hlog⟩ := h.waits j hj
    refine ⟨hlt, ?_, ?_⟩
    · exact List.mem_filter.mpr ⟨htimer, by simpa using hji⟩
    · rw [ConcurrencyGate.forall_mem_settle]
      exact ⟨hlog, hji.symm⟩
  case timed =>
    intro j hj
    obtain ⟨hj, hji⟩ := List.mem_filter.mp hj
    exact (hqueue j).mpr ⟨h.timed j hj, by simpa using hji⟩
  case heard =>
    intro j hj
    obtain ⟨hj, hji⟩ := List.mem_filter.mp hj
    exact (hqueue j).mpr ⟨h.heard j hj, by simpa using hji⟩
  case logged =>
    rw [ConcurrencyGate.forall_mem_settle]
    exact ⟨h.logged, (h.waits i hi).1⟩
  case once =>
    intro j hj hjq
    apply once_settle hunlogged
    intro hji
    exact h.once j hj fun hmem => hjq ((hqueue j).mpr ⟨hmem, hji⟩)
  case sorted => exact h.sorted.filter _
  case ahead =>
    rw [ConcurrencyGate.forall_mem_settle]
    exact ⟨fun e he hg j hj => h.ahead e he hg j ((hqueue j).mp hj).1, fun hg => absurd hg hne⟩
  case order => exact order_settle h fun e he hg => h.ahead e he hg i hi
  case released =>
    rw [ConcurrencyGate.grants_settle_of_ne hne]
    exact h.released

theorem abort (h : GateInv limit gate) (i : Nat) : GateInv limit (gate.abort i) := by
  unfold ConcurrencyGate.abort
  split
  next hlisten => exact h.reject (h.heard i hlisten) (by decide)
  next => exact h

/-- An arrival whose signal has aborted. -/
theorem refuse (h : GateInv limit gate) :
    GateInv limit ({ gate with arrivals := gate.arrivals + 1 }.settle gate.arrivals .cancelled)
    where
  active := by
    rw [ConcurrencyGate.holders_settle_of_ne (by decide)]
    exact h.active
  bounded := h.bounded
  full := h.full
  waits := by
    intro j hj
    obtain ⟨hlt, htimer, hlog⟩ := h.waits j hj
    refine ⟨Nat.lt_succ_of_lt hlt, htimer, ?_⟩
    rw [ConcurrencyGate.forall_mem_settle]
    exact ⟨hlog, Nat.ne_of_gt hlt⟩
  timed := h.timed
  heard := h.heard
  logged := by
    rw [ConcurrencyGate.forall_mem_settle]
    exact ⟨fun e he => Nat.lt_succ_of_lt (h.logged e he), Nat.lt_succ_self _⟩
  once := by
    intro j hj hq
    apply once_settle h.new_unlogged
    intro hne
    exact h.once j (Nat.lt_of_le_of_ne (Nat.le_of_lt_succ hj) hne) hq
  sorted := h.sorted
  ahead := by
    rw [ConcurrencyGate.forall_mem_settle]
    exact ⟨h.ahead, fun hg => nomatch hg⟩
  order := by exact h.order_settle fun e he _ => h.logged e he
  released := by
    rw [ConcurrencyGate.grants_settle_of_ne (by decide)]
    exact h.released

/-- An arrival that finds a free slot: nobody is waiting then. -/
theorem enter (h : GateInv limit gate) (hfree : gate.active < limit) :
    GateInv limit ({ gate with arrivals := gate.arrivals + 1, active := gate.active + 1 }.settle
      gate.arrivals .granted) := by
  have hempty : gate.queue = [] := by
    by_contra hne
    have := h.full hne
    omega
  have hnew := h.new_unreleased h.new_unlogged
  constructor
  case active =>
    have hlength : gate.active + 1 = (gate.settle gate.arrivals .granted).holders.length := by
      rw [ConcurrencyGate.holders_settle_granted hnew, List.length_append, h.active]
      rfl
    exact hlength
  case bounded => exact hfree
  case full => exact fun hne => absurd hempty hne
  case waits => exact fun j hj => absurd (hempty ▸ hj : j ∈ []) List.not_mem_nil
  case timed => exact h.timed
  case heard => exact h.heard
  case logged =>
    rw [ConcurrencyGate.forall_mem_settle]
    exact ⟨fun e he => Nat.lt_succ_of_lt (h.logged e he), Nat.lt_succ_self _⟩
  case once =>
    intro j hj hq
    apply once_settle h.new_unlogged
    intro hne
    exact h.once j (Nat.lt_of_le_of_ne (Nat.le_of_lt_succ hj) hne) hq
  case sorted => exact h.sorted
  case ahead => exact fun e _ _ j hj => absurd (hempty ▸ hj : j ∈ []) List.not_mem_nil
  case order => exact h.order_settle fun e he _ => h.logged e he
  case released =>
    intro j hj
    rw [ConcurrencyGate.grants_settle_granted, List.mem_append]
    exact .inl (h.released j hj)

/-- An arrival that has to wait. -/
theorem wait (h : GateInv limit gate) (hfull : ¬ gate.active < limit) (listen : Bool) :
    GateInv limit { gate with
      arrivals := gate.arrivals + 1
      queue := gate.queue ++ [gate.arrivals]
      timers := gate.timers ++ [gate.arrivals]
      listeners := if listen then gate.listeners ++ [gate.arrivals] else gate.listeners }
    where
  active := h.active
  bounded := h.bounded
  full := by
    intro _
    have := h.bounded
    show gate.active = limit
    omega
  waits := by
    rw [List.forall_mem_append, List.forall_mem_singleton]
    refine ⟨?_, Nat.lt_succ_self _, by simp, h.new_unlogged⟩
    intro j hj
    obtain ⟨hlt, htimer, hlog⟩ := h.waits j hj
    exact ⟨Nat.lt_succ_of_lt hlt, List.mem_append_left _ htimer, hlog⟩
  timed := by
    rw [List.forall_mem_append, List.forall_mem_singleton]
    exact ⟨fun j hj => List.mem_append_left _ (h.timed j hj), by simp⟩
  heard := by
    have hold : ∀ j ∈ gate.listeners, j ∈ gate.queue ++ [gate.arrivals] :=
      fun j hj => List.mem_append_left _ (h.heard j hj)
    cases listen with
    | false => exact hold
    | true => exact List.forall_mem_append.mpr ⟨hold, by simp⟩
  logged := fun e he => Nat.lt_succ_of_lt (h.logged e he)
  once := by
    intro j hj hq
    rw [List.mem_append, List.mem_singleton, not_or] at hq
    exact h.once j (Nat.lt_of_le_of_ne (Nat.le_of_lt_succ hj) hq.2) hq.1
  sorted := by
    rw [List.pairwise_append]
    refine ⟨h.sorted, List.pairwise_singleton _ _, ?_⟩
    intro j hj k hk
    rw [List.mem_singleton] at hk
    exact hk ▸ (h.waits j hj).1
  ahead := by
    intro e he hg
    rw [List.forall_mem_append, List.forall_mem_singleton]
    exact ⟨h.ahead e he hg, h.logged e he⟩
  order := h.order
  released := h.released

theorem acquire (h : GateInv limit gate) (signal : Option Bool) :
    GateInv limit (gate.acquire limit signal) := by
  unfold ConcurrencyGate.acquire
  by_cases habort : signal = some true
  · simp only [habort, if_true]
    exact h.refuse
  · simp only [habort, if_false]
    by_cases hfree : gate.active < limit
    · simp only [hfree, if_true]
      exact h.enter hfree
    · simp only [hfree, if_false]
      exact h.wait hfree signal.isSome

theorem released_append (h : GateInv limit gate) {i : Nat} (hi : i ∈ gate.holders) :
    ∀ j ∈ gate.released ++ [i], j ∈ gate.grants := by
  rw [List.forall_mem_append, List.forall_mem_singleton]
  exact ⟨h.released, (List.mem_filter.mp hi).1⟩

/-- A slot that nobody waits for becomes free. -/
theorem free (h : GateInv limit gate) {i : Nat} (hi : i ∈ gate.holders) (hq : gate.queue = []) :
    GateInv limit { gate with released := gate.released ++ [i], active := gate.active - 1 }
    where
  active := by
    have hlength := ConcurrencyGate.length_holders_release h.grants_nodup hi
    rw [← h.active] at hlength
    exact Nat.sub_eq_of_eq_add hlength.symm
  bounded := Nat.le_trans (Nat.sub_le _ _) h.bounded
  full := fun hne => absurd hq hne
  waits := h.waits
  timed := h.timed
  heard := h.heard
  logged := h.logged
  once := h.once
  sorted := h.sorted
  ahead := h.ahead
  order := h.order
  released := h.released_append hi

/-- A slot is handed over to the head of the queue, which arrived first. -/
theorem handOver (h : GateInv limit gate) {i : Nat} (hi : i ∈ gate.holders) {next : Nat}
    {rest : List Nat} (hq : gate.queue = next :: rest) :
    GateInv limit (({ gate with released := gate.released ++ [i], queue := rest }.disarm
      next).settle next .granted) := by
  have hmem : ∀ j, j ∈ rest → j ∈ gate.queue := fun j hj => hq ▸ List.mem_cons_of_mem _ hj
  have hsorted := hq ▸ h.sorted
  rw [List.pairwise_cons] at hsorted
  have hnext : next ∈ gate.queue := hq ▸ List.mem_cons_self
  obtain ⟨hlt, -, hunlogged⟩ := h.waits next hnext
  have hrest : ∀ j, j ∈ gate.queue → j ≠ next → j ∈ rest := by
    intro j hj hne
    rw [hq] at hj
    exact List.mem_of_ne_of_mem hne hj
  constructor
  case active =>
    have hnew : next ∉ gate.released ++ [i] := by
      intro hmem
      exact hunlogged _ (mem_grants.mp (h.released_append hi _ hmem)) rfl
    have hlength := ConcurrencyGate.length_holders_release h.grants_nodup hi
    have hactive : gate.active
        = ({ gate with released := gate.released ++ [i] }.settle next .granted).holders.length := by
      rw [ConcurrencyGate.holders_settle_granted hnew, List.length_append, h.active, ← hlength]
      rfl
    exact hactive
  case bounded => exact h.bounded
  case full => exact fun _ => h.full (List.ne_nil_of_mem hnext)
  case waits =>
    intro j hj
    obtain ⟨hlt, htimer, hlog⟩ := h.waits j (hmem j hj)
    have hne : next ≠ j := Nat.ne_of_lt (hsorted.1 j hj)
    refine ⟨hlt, List.mem_filter.mpr ⟨htimer, by simpa using hne.symm⟩, ?_⟩
    exact ConcurrencyGate.forall_mem_settle.mpr ⟨hlog, hne⟩
  case timed =>
    intro j hj
    obtain ⟨hj, hne⟩ := List.mem_filter.mp hj
    exact hrest j (h.timed j hj) (by simpa using hne)
  case heard =>
    intro j hj
    obtain ⟨hj, hne⟩ := List.mem_filter.mp hj
    exact hrest j (h.heard j hj) (by simpa using hne)
  case logged => exact ConcurrencyGate.forall_mem_settle.mpr ⟨h.logged, hlt⟩
  case once =>
    intro j hj hjq
    apply once_settle hunlogged
    intro hne
    exact h.once j hj fun hmem => hjq (hrest j hmem hne)
  case sorted => exact hsorted.2
  case ahead =>
    refine ConcurrencyGate.forall_mem_settle.mpr ⟨?_, fun _ => hsorted.1⟩
    exact fun e he hg j hj => h.ahead e he hg j (hmem j hj)
  case order => exact h.order_settle fun e he hg => h.ahead e he hg next hnext
  case released =>
    intro j hj
    have hmem : j ∈ gate.grants ++ [next] := List.mem_append_left _ (h.released_append hi j hj)
    rw [← ConcurrencyGate.grants_settle_granted] at hmem
    exact hmem

theorem release (h : GateInv limit gate) {i : Nat} (hi : i ∈ gate.holders) :
    GateInv limit { gate with released := gate.released ++ [i] }.release := by
  cases hq : gate.queue with
  | nil =>
      have hfree := h.free hi hq
      simpa [ConcurrencyGate.release, hq] using hfree
  | cons next rest =>
      have hover := h.handOver hi hq
      simpa [ConcurrencyGate.release, hq] using hover

/-- One lemma for each action. -/
theorem step (h : GateInv limit gate) (a : GateAction) {gate' : ConcurrencyGate}
    (hstep : gateStep limit gate a = some gate') : GateInv limit gate' := by
  cases a with
  | acquire signal =>
      rw [gateStep, Option.some.injEq] at hstep
      exact hstep ▸ h.acquire signal
  | release i =>
      rw [gateStep, Option.ite_none_right_eq_some, Option.some.injEq] at hstep
      exact hstep.2 ▸ h.release hstep.1
  | timeout i =>
      rw [gateStep, Option.ite_none_right_eq_some, Option.some.injEq] at hstep
      exact hstep.2 ▸ h.reject (h.timed i hstep.1) (by decide)
  | abort i =>
      rw [gateStep, Option.ite_none_right_eq_some, Option.some.injEq] at hstep
      exact hstep.2 ▸ h.abort i

theorem safe (h : GateInv limit gate) : GateSafe limit gate where
  active := h.active
  bounded := h.bounded
  full := h.full
  settled := by
    intro i hi
    by_cases hq : i ∈ gate.queue
    · exact .inl ⟨hq, (h.waits i hq).2⟩
    · exact .inr ⟨hq, fun ht => hq (h.timed i ht), fun hl => hq (h.heard i hl), h.once i hi hq⟩
  order := h.order

end GateInv

/-- A waiter that leaves without a slot takes none along, and the others keep waiting. -/
structure SlotsKept (gate gate' : ConcurrencyGate) (i : Nat) : Prop where
  active : gate'.active = gate.active
  holders : gate'.holders = gate.holders
  queue : ∀ j ∈ gate.queue, j ≠ i → j ∈ gate'.queue

theorem slotsKept_reject {gate : ConcurrencyGate} {i : Nat} {settlement : Settlement}
    (hne : settlement ≠ .granted) :
    SlotsKept gate (((gate.disarm i).remove i).settle i settlement) i where
  active := rfl
  holders := ConcurrencyGate.holders_settle_of_ne hne
  queue := by
    intro j hj hji
    exact List.mem_filter.mpr ⟨hj, by simpa using hji⟩

/-- Any limit, any order of calls, releases, time-outs and aborts. -/
theorem gateSystem_safe (limit : Nat) {gate : ConcurrencyGate}
    (h : (gateSystem limit).Reachable System.anyStep gate) :
    GateSafe limit gate ∧
      ∀ i gate', gateStep limit gate (.timeout i) = some gate' ∨
        gateStep limit gate (.abort i) = some gate' → SlotsKept gate gate' i := by
  have hinv : GateInv limit gate := by
    apply h.invariant (GateInv limit)
    · rintro _ rfl
      exact GateInv.init
    · intro gate a gate' hgate _ hstep
      exact hgate.step a hstep
  refine ⟨hinv.safe, ?_⟩
  intro i gate' hstep
  cases hstep with
  | inl htimeout =>
      rw [gateStep, Option.ite_none_right_eq_some, Option.some.injEq] at htimeout
      exact htimeout.2 ▸ slotsKept_reject (by decide)
  | inr habort =>
      rw [gateStep, Option.ite_none_right_eq_some, Option.some.injEq] at habort
      rw [← habort.2, ConcurrencyGate.abort]
      split
      next => exact slotsKept_reject (by decide)
      next => exact ⟨rfl, rfl, fun _ hj _ => hj⟩

/-- One slot: the second caller waits, the third aborts, the first hands over. -/
def handOverRun : List GateAction :=
  [.acquire none, .acquire none, .acquire (some false), .abort 2, .release 0]

theorem gateSystem_safe_handOverRun : ∃ gate,
    (gateSystem 1).exec .new handOverRun = some gate ∧ gate.holders = [1] ∧ GateSafe 1 gate := by
  refine ⟨_, rfl, rfl, ?_⟩
  apply (gateSystem_safe 1 _).1
  exact ⟨.new, rfl, System.path_of_exec handOverRun rfl⟩

end Pi
end HermesPlatform
