/-
  HermesPlatform.Orchestration.TaskQueue

  `TaskQueue`: the ids of the tasks that wait for a worker, in a sorted set of Redis.

  One score holds the priority and the time of an id.  Every run of the operations is
  compared with what its history says is waiting (`waiting`): the ids in the order in which
  they came in, each with the priority and the time of that moment.

  The ids are UUIDs, which is what every caller passes.  Redis answers every request.
-/

import HermesPlatform.Lib.SortedSet
import HermesPlatform.Lib.Transition
import HermesPlatform.Lib.Uuid
import Mathlib.Data.List.Nodup
import Mathlib.Data.Rat.Cast.Order
import Mathlib.Data.String.Basic
import Mathlib.Tactic.Linarith
import Mathlib.Tactic.NormNum

namespace HermesPlatform
namespace Orchestration
namespace TaskQueue

open SortedSet Transition

/-! ## The operations -/

inductive TaskQueueError where
  | invalidTaskId
deriving DecidableEq, Repr

/-- The set under `self.key`. -/
abbrev Members := List (String × ℚ)

/-- The smallest score is popped first: the band of the priority, and the milliseconds of
    `time.time_ns()` inside it. -/
def score (priority : Int) (timeNs : Nat) : ℚ := (9 - priority) * 10 ^ 13 + timeNs / 10 ^ 6

/-- `none`: the `ValueError`. -/
def enqueue (taskId : Uuid) (priority : Int) (timeNs : Nat) (members : Members) :
    Option Members :=
  if 0 ≤ priority ∧ priority ≤ 9 then some (zaddNx taskId.str (score priority timeNs) members)
  else none

/-- What is returned or raised, and the set afterwards. -/
def dequeue (members : Members) : Except TaskQueueError (Option Uuid) × Members :=
  match zpopmin members with
  | none => (.ok none, members)
  | some (value, rest) =>
      match Uuid.parse value.1 with
      | some taskId => (.ok (some taskId), rest)
      | none => (.error .invalidTaskId, rest)

def remove (taskId : Uuid) (members : Members) : Members := zrem taskId.str members

/-! ## What waits -/

structure Waiting where
  id : Uuid
  priority : Int
  timeNs : Nat
deriving DecidableEq, Repr

inductive Event where
  | enqueued (w : Waiting)
  /-- The id has been returned. -/
  | dequeued (id : Uuid)
  | removed (id : Uuid)
deriving DecidableEq, Repr

def ids (ws : List Waiting) : List Uuid := ws.map Waiting.id

def without (id : Uuid) (ws : List Waiting) : List Waiting := ws.filter (·.id ≠ id)

/-- What waits after a history, whose latest event is first. -/
def waiting : List Event → List Waiting
  | [] => []
  | .enqueued w :: earlier =>
      if w.id ∈ ids (waiting earlier) then waiting earlier else waiting earlier ++ [w]
  | .dequeued id :: earlier => without id (waiting earlier)
  | .removed id :: earlier => without id (waiting earlier)

/-- How often an id was enqueued while it was not waiting. -/
def entered (id : Uuid) : List Event → Nat
  | [] => 0
  | .enqueued w :: earlier =>
      entered id earlier + if w.id = id ∧ id ∉ ids (waiting earlier) then 1 else 0
  | .dequeued _ :: earlier => entered id earlier
  | .removed _ :: earlier => entered id earlier

/-- How often an id was returned, or removed while it was waiting. -/
def left (id : Uuid) : List Event → Nat
  | [] => 0
  | .enqueued _ :: earlier => left id earlier
  | .dequeued j :: earlier => left id earlier + if j = id then 1 else 0
  | .removed j :: earlier =>
      left id earlier + if j = id ∧ id ∈ ids (waiting earlier) then 1 else 0

/-! ## The system -/

structure State where
  members : Members
  /-- The last `time.time_ns()`. -/
  clock : Nat
  history : List Event
deriving DecidableEq, Repr

inductive Action where
  | enqueue (taskId : Uuid) (priority : Int) (timeNs : Nat)
  | dequeue
  | remove (taskId : Uuid)
deriving DecidableEq, Repr

/-- The clock does not go back, and its milliseconds stay below `10 ^ 13`. -/
def step (s : State) : Action → Option State
  | .enqueue taskId priority timeNs =>
      if s.clock ≤ timeNs ∧ timeNs < 10 ^ 13 * 10 ^ 6 then
        match enqueue taskId priority timeNs s.members with
        | some members =>
            some ⟨members, timeNs, .enqueued ⟨taskId, priority, timeNs⟩ :: s.history⟩
        | none => some { s with clock := timeNs }
      else none
  | .dequeue =>
      match dequeue s.members with
      | (.ok (some taskId), members) =>
          some { s with members := members, history := .dequeued taskId :: s.history }
      | (_, members) => some { s with members := members }
  | .remove taskId =>
      some { s with members := remove taskId s.members, history := .removed taskId :: s.history }

def empty : State := ⟨[], 0, []⟩

def system : System State Action := ⟨(· = empty), step⟩

/-! ## The scores -/

/-- `w` is taken before `w'`, or may be. -/
def Waiting.Before (w w' : Waiting) : Prop :=
  w'.priority < w.priority ∨ w'.priority = w.priority ∧ w.timeNs ≤ w'.timeNs

instance (w w' : Waiting) : Decidable (w.Before w') := by
  unfold Waiting.Before
  infer_instance

/-- What `enqueue` admits. -/
structure Waiting.Admitted (w : Waiting) : Prop where
  lower : 0 ≤ w.priority
  upper : w.priority ≤ 9
  time : w.timeNs < 10 ^ 13 * 10 ^ 6

def Waiting.entry (w : Waiting) : String × ℚ := (w.id.str, score w.priority w.timeNs)

/-- **The scores are ordered by priority, and by time inside a priority.** -/
theorem Waiting.before_of_score_le {w w' : Waiting} (hadmitted : w'.Admitted)
    (h : score w.priority w.timeNs ≤ score w'.priority w'.timeNs) : w.Before w' := by
  have htime : (w'.timeNs : ℚ) < 10 ^ 13 * 10 ^ 6 := by
    exact_mod_cast hadmitted.time
  have hpos : (0 : ℚ) ≤ w.timeNs := Nat.cast_nonneg _
  unfold score at h
  obtain hlt | heq | hgt := lt_trichotomy w'.priority w.priority
  · exact .inl hlt
  · refine .inr ⟨heq, ?_⟩
    rw [heq] at h
    have hle : (w.timeNs : ℚ) ≤ w'.timeNs := by linarith
    exact_mod_cast hle
  · -- A whole band lies between the two, more than the clock can make up for.
    exfalso
    have hband : (w.priority : ℚ) + 1 ≤ w'.priority := by
      exact_mod_cast hgt
    linarith

/-! ## The set and what waits -/

section Refinement

variable {ws : List Waiting}

theorem fst_entry (ws : List Waiting) :
    (ws.map Waiting.entry).map Prod.fst = (ids ws).map Uuid.str := by
  simp only [ids, List.map_map]
  rfl

theorem str_mem_iff {id : Uuid} :
    id.str ∈ (ws.map Waiting.entry).map Prod.fst ↔ id ∈ ids ws := by
  rw [fst_entry, List.mem_map_of_injective Uuid.str_injective]

theorem mem_ids_without {id j : Uuid} : j ∈ ids (without id ws) ↔ j ∈ ids ws ∧ j ≠ id := by
  simp only [ids, without, List.mem_map, List.mem_filter, decide_eq_true_eq]
  constructor
  · rintro ⟨w, ⟨hw, hne⟩, rfl⟩
    exact ⟨⟨w, hw, rfl⟩, hne⟩
  · rintro ⟨⟨w, hw, rfl⟩, hne⟩
    exact ⟨w, ⟨hw, hne⟩, rfl⟩

theorem remove_entry (id : Uuid) :
    remove id (ws.map Waiting.entry) = (without id ws).map Waiting.entry := by
  have hstr : ∀ w ∈ ws, ((fun e : String × ℚ => decide (e.1 ≠ id.str)) ∘ Waiting.entry) w =
      decide (w.id ≠ id) := by
    intro w _
    simp only [Function.comp_apply, Waiting.entry, ne_eq, Uuid.str_injective.eq_iff]
  rw [remove, zrem, without, List.filter_map, List.filter_congr hstr]

theorem enqueue_entry {w : Waiting} {members : Members}
    (h : enqueue w.id w.priority w.timeNs (ws.map Waiting.entry) = some members) :
    0 ≤ w.priority ∧ w.priority ≤ 9 ∧
      members = (if w.id ∈ ids ws then ws else ws ++ [w]).map Waiting.entry := by
  unfold enqueue at h
  split at h
  case isFalse => cases h
  case isTrue hrange =>
    cases h
    refine ⟨hrange.1, hrange.2, ?_⟩
    split
    case isTrue hmem => exact zaddNx_of_mem _ (str_mem_iff.mpr hmem)
    case isFalse hmem =>
      rw [List.map_append, zaddNx_of_not_mem _ (fun h => hmem (str_mem_iff.mp h))]
      rfl

/-- What `dequeue` does to the set of what waits. -/
theorem dequeue_entry (hadmitted : ∀ w ∈ ws, w.Admitted) :
    ws = [] ∧ dequeue (ws.map Waiting.entry) = (.ok none, []) ∨
      ∃ w ∈ ws, (∀ w' ∈ ws, w.Before w') ∧
        dequeue (ws.map Waiting.entry) =
          (.ok (some w.id), (without w.id ws).map Waiting.entry) := by
  cases hpop : zpopmin (ws.map Waiting.entry) with
  | none =>
      have hnil := List.map_eq_nil_iff.mp (zpopmin_eq_none.mp hpop)
      subst hnil
      exact .inl ⟨rfl, rfl⟩
  | some popped =>
      obtain ⟨e, rest⟩ := popped
      obtain ⟨hmem, hleast, rfl⟩ := zpopmin_eq_some hpop
      obtain ⟨w, hw, rfl⟩ := List.mem_map.mp hmem
      refine .inr ⟨w, hw, ?_, ?_⟩
      · intro w' hw'
        exact Waiting.before_of_score_le (hadmitted w' hw') (hleast _ (List.mem_map_of_mem hw'))
      · have hparse : Uuid.parse w.entry.1 = some w.id := Uuid.parse_str w.id
        unfold dequeue
        rw [hpop]
        dsimp only
        rw [hparse]
        dsimp only
        congr 1
        exact remove_entry w.id

end Refinement

/-! ## Runs -/

structure Invariant (s : State) : Prop where
  members : s.members = (waiting s.history).map Waiting.entry
  distinct : (ids (waiting s.history)).Nodup
  admitted : ∀ w ∈ waiting s.history, w.Admitted ∧ w.timeNs ≤ s.clock
  times : (waiting s.history).Pairwise (·.timeNs ≤ ·.timeNs)
  counts : ∀ id, entered id s.history =
    left id s.history + if id ∈ ids (waiting s.history) then 1 else 0

namespace Invariant

variable {s : State}

theorem empty : Invariant empty :=
  ⟨rfl, List.nodup_nil, by simp [TaskQueue.empty, waiting], List.Pairwise.nil, fun _ => rfl⟩

theorem later (h : Invariant s) {now : Nat} (hnow : s.clock ≤ now) :
    Invariant { s with clock := now } :=
  ⟨h.members, h.distinct, fun w hw => ⟨(h.admitted w hw).1, (h.admitted w hw).2.trans hnow⟩,
    h.times, h.counts⟩

theorem enqueued (h : Invariant s) {w : Waiting} (hadmitted : w.Admitted)
    (hclock : s.clock ≤ w.timeNs) :
    Invariant
      ⟨(if w.id ∈ ids (waiting s.history) then waiting s.history
        else waiting s.history ++ [w]).map Waiting.entry, w.timeNs, .enqueued w :: s.history⟩ := by
  by_cases hmem : w.id ∈ ids (waiting s.history)
  case pos =>
    -- `NX`: the id keeps its place and its score.
    have hwaiting : waiting (.enqueued w :: s.history) = waiting s.history := if_pos hmem
    have hold := h.later hclock
    refine ⟨rfl, ?_, ?_, ?_, ?_⟩
    · rw [hwaiting]
      exact hold.distinct
    · rw [hwaiting]
      exact hold.admitted
    · rw [hwaiting]
      exact hold.times
    · intro id
      rw [hwaiting, entered, left, if_neg (by rintro ⟨rfl, hnot⟩; exact hnot hmem)]
      exact hold.counts id
  case neg =>
    have hwaiting : waiting (.enqueued w :: s.history) = waiting s.history ++ [w] := if_neg hmem
    have hids : ids (waiting (.enqueued w :: s.history)) = ids (waiting s.history) ++ [w.id] := by
      rw [hwaiting, ids, ids, List.map_append]
      rfl
    refine ⟨rfl, ?_, ?_, ?_, ?_⟩
    · rw [hids, ← List.concat_eq_append]
      exact List.Nodup.concat hmem h.distinct
    · rw [hwaiting]
      intro w' hw'
      obtain hold | hnew := List.mem_append.mp hw'
      · exact (h.later hclock).admitted w' hold
      · rw [List.mem_singleton.mp hnew]
        exact ⟨hadmitted, le_rfl⟩
    · rw [hwaiting, List.pairwise_append]
      refine ⟨h.times, List.pairwise_singleton _ _, ?_⟩
      intro a ha b hb
      rw [List.mem_singleton.mp hb]
      exact (h.admitted a ha).2.trans hclock
    · intro id
      have hcount := h.counts id
      rw [hids, entered, left]
      by_cases hid : w.id = id
      · subst hid
        simp only [hmem, not_false_eq_true, and_self, if_true, if_false, List.mem_append,
          List.mem_singleton, or_true] at hcount ⊢
        omega
      · have hne : id ≠ w.id := fun h => hid h.symm
        simp only [hid, hne, false_and, if_false, List.mem_append, List.mem_singleton,
          or_false, Nat.add_zero]
        exact hcount

/-- An id has gone, by an event that says so. -/
theorem gone (h : Invariant s) {id : Uuid} {e : Event}
    (hwaiting : waiting (e :: s.history) = without id (waiting s.history))
    (hentered : ∀ j, entered j (e :: s.history) = entered j s.history)
    (hleft : ∀ j, left j (e :: s.history) =
      left j s.history + if id = j ∧ j ∈ ids (waiting s.history) then 1 else 0) :
    Invariant
      ⟨(without id (waiting s.history)).map Waiting.entry, s.clock, e :: s.history⟩ := by
  refine ⟨?_, ?_, ?_, ?_, ?_⟩
  · rw [hwaiting]
  · rw [hwaiting]
    exact h.distinct.sublist (List.filter_sublist.map _)
  · rw [hwaiting]
    intro w hw
    exact h.admitted w (List.mem_of_mem_filter hw)
  · rw [hwaiting]
    exact h.times.sublist List.filter_sublist
  · intro j
    have hcount := h.counts j
    rw [hwaiting, hentered, hleft]
    -- Only the account of the id that has gone changes, and only if it was waiting.
    by_cases hj : id = j
    · subst hj
      by_cases hmem : id ∈ ids (waiting s.history)
      · simp only [hmem, mem_ids_without, ne_eq, not_true_eq_false, and_false, and_self,
          if_true, if_false] at hcount ⊢
        omega
      · simp only [hmem, mem_ids_without, false_and, and_false, if_false] at hcount ⊢
        omega
    · have hne : j ≠ id := fun h => hj h.symm
      simp only [hj, mem_ids_without, hne, ne_eq, not_false_eq_true, and_true, false_and, if_false,
        Nat.add_zero]
      exact hcount

theorem step_inv (h : Invariant s) {a : Action} {t : State} (hstep : step s a = some t) :
    Invariant t := by
  cases a with
  | enqueue taskId priority timeNs =>
      simp only [step] at hstep
      split at hstep
      case isFalse => cases hstep
      case isTrue hclock =>
        split at hstep
        next members hmembers =>
          cases hstep
          rw [h.members] at hmembers
          obtain ⟨hlower, hupper, rfl⟩ := enqueue_entry (w := ⟨taskId, priority, timeNs⟩) hmembers
          exact h.enqueued (w := ⟨taskId, priority, timeNs⟩) ⟨hlower, hupper, hclock.2⟩ hclock.1
        next =>
          cases hstep
          exact h.later hclock.1
  | dequeue =>
      simp only [step] at hstep
      rw [h.members] at hstep
      obtain ⟨hnil, hdequeue⟩ | ⟨w, hw, -, hdequeue⟩ :=
        dequeue_entry fun w hw => (h.admitted w hw).1
      · rw [hdequeue] at hstep
        cases hstep
        have hmembers : s.members = [] := by
          rw [h.members, hnil]
          rfl
        rw [← hmembers]
        exact h
      · rw [hdequeue] at hstep
        cases hstep
        have hid : w.id ∈ ids (waiting s.history) := List.mem_map_of_mem hw
        refine h.gone rfl (fun _ => rfl) fun j => ?_
        rw [left]
        congr 1
        refine if_congr ?_ rfl rfl
        constructor
        · rintro rfl
          exact ⟨rfl, hid⟩
        · exact And.left
  | remove taskId =>
      simp only [step] at hstep
      cases hstep
      rw [h.members, remove_entry]
      exact h.gone rfl (fun _ => rfl) fun _ => rfl

theorem of_reachable {s : State} (h : system.Reachable System.anyStep s) : Invariant s := by
  refine h.invariant Invariant ?_ ?_
  · intro s hs
    obtain rfl : s = TaskQueue.empty := hs
    exact empty
  · intro s a t hinv _ hstep
    exact hinv.step_inv hstep

end Invariant

/-- What the queue promises after a run. -/
structure Law (s : State) : Prop where
  /-- The set holds what waits, and no id twice. -/
  members : s.members.map Prod.fst = (ids (waiting s.history)).map Uuid.str
  distinct : (s.members.map Prod.fst).Nodup
  /-- What waits is in the order of the clock. -/
  times : (waiting s.history).Pairwise (·.timeNs ≤ ·.timeNs)
  /-- The id that is returned has waited, none of a higher priority waits, and none of its
      priority has waited for longer. -/
  order : ∀ id, (dequeue s.members).1 = .ok (some id) →
    ∃ w ∈ waiting s.history, w.id = id ∧ ∀ w' ∈ waiting s.history, w.Before w'
  /-- None is returned only when none waits, and no id is invalid. -/
  nothing : (dequeue s.members).1 = .ok none ↔ waiting s.history = []
  valid : ∀ e, (dequeue s.members).1 ≠ .error e
  /-- An id that waits is neither duplicated nor moved. -/
  again : ∀ id ∈ ids (waiting s.history), ∀ priority timeNs members,
    enqueue id priority timeNs s.members = some members → members = s.members
  /-- An id leaves once each time it has come in, and until then it waits. -/
  once : ∀ id, entered id s.history =
    left id s.history + if id ∈ ids (waiting s.history) then 1 else 0

/-- **Order and conservation of the queue**, after every run of its operations. -/
theorem law_of_reachable {s : State} (h : system.Reachable System.anyStep s) : Law s := by
  have hinv := Invariant.of_reachable h
  have hfst : s.members.map Prod.fst = (ids (waiting s.history)).map Uuid.str := by
    rw [hinv.members, fst_entry]
  have hdequeue := dequeue_entry fun w hw => (hinv.admitted w hw).1
  rw [← hinv.members] at hdequeue
  refine ⟨hfst, ?_, hinv.times, ?_, ?_, ?_, ?_, hinv.counts⟩
  · rw [hfst]
    exact hinv.distinct.map Uuid.str_injective
  · intro id hid
    obtain ⟨-, hnone⟩ | ⟨w, hw, hbefore, hsome⟩ := hdequeue
    · rw [hnone] at hid
      cases hid
    · rw [hsome] at hid
      cases hid
      exact ⟨w, hw, rfl, hbefore⟩
  · obtain ⟨hnil, hnone⟩ | ⟨w, hw, -, hsome⟩ := hdequeue
    · rw [hnone]
      exact iff_of_true rfl hnil
    · rw [hsome]
      exact iff_of_false (fun h => by cases h) (List.ne_nil_of_mem hw)
  · intro e he
    obtain ⟨-, hnone⟩ | ⟨w, -, -, hsome⟩ := hdequeue
    · rw [hnone] at he
      cases he
    · rw [hsome] at he
      cases he
  · intro id hid priority timeNs members hmembers
    rw [hinv.members] at hmembers
    obtain ⟨-, -, rfl⟩ := enqueue_entry (w := ⟨id, priority, timeNs⟩) hmembers
    rw [if_pos hid, hinv.members]

/-- Two ids with priorities 3 and 7; the first is enqueued again, with priority 9. -/
def twoTasks : List Action :=
  [.enqueue ⟨17, by decide⟩ 3 1700000000000000000, .enqueue ⟨5, by decide⟩ 7 1700000000000000001,
    .enqueue ⟨17, by decide⟩ 9 1700000000000000002, .dequeue]

/-- The later of the two is returned, and the other one is still where it was. -/
theorem law_of_reachable_twoTasks :
    ∃ s, system.exec empty twoTasks = some s ∧
      s.history.head? = some (.dequeued ⟨5, by decide⟩) ∧
      waiting s.history = [⟨⟨17, by decide⟩, 3, 1700000000000000000⟩] ∧ Law s := by
  have hrun : (system.exec empty twoTasks).map State.history =
      some [.dequeued ⟨5, by decide⟩, .enqueued ⟨⟨17, by decide⟩, 9, 1700000000000000002⟩,
        .enqueued ⟨⟨5, by decide⟩, 7, 1700000000000000001⟩,
        .enqueued ⟨⟨17, by decide⟩, 3, 1700000000000000000⟩] := by
    decide +kernel
  obtain ⟨s, hexec, hhistory⟩ := Option.map_eq_some_iff.mp hrun
  refine ⟨s, hexec, ?_, ?_, ?_⟩
  · rw [hhistory]
    rfl
  · rw [hhistory]
    decide
  · exact law_of_reachable ⟨empty, rfl, System.path_of_exec twoTasks hexec⟩

end TaskQueue
end Orchestration
end HermesPlatform
