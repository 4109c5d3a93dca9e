/-
  HermesPlatform.Production.RateLimit

  `enforce_rate_limit`: a counter in Redis for each client and minute, and the requests of any
  number of processes that share one clock.

  A process reads the clock and then has Redis run the script, which may be some time later.
  The script counts the request, and gives a counter that it makes sixty seconds from then.  So
  no counter goes while its minute lasts, but a request that reaches Redis after its minute may
  find the counter gone, and is counted from one again.
-/

import HermesPlatform.Lib.Table
import HermesPlatform.Lib.Transition
import Mathlib.Data.List.Count

namespace HermesPlatform
namespace Production
namespace RateLimit

open Transition

/-! ## Times -/

/-- The clock counts microseconds. -/
def second : Nat := 1000000

/-- `int(current.timestamp()) // 60`. -/
def windowOf (now : Nat) : Nat := now / second / 60

/-- `max(1, 60 - (int(current.timestamp()) % 60))`. -/
def retryAfter (now : Nat) : Nat := max 1 (60 - now / second % 60)

theorem windowOf_eq (now : Nat) : windowOf now = now / (60 * second) := by
  rw [windowOf, Nat.div_div_eq_div_mul, Nat.mul_comm]

/-- The time to retry at is in the next window. -/
theorem windowOf_retry (now : Nat) :
    windowOf (now + retryAfter now * second) = windowOf now + 1 := by
  simp only [windowOf, retryAfter]
  rw [Nat.add_mul_div_right _ _ (by decide : 0 < second)]
  omega

/-- A minute touches two windows. -/
theorem windowOf_span {a now : Nat} (hlow : a ≤ now) (hhigh : now < a + 60 * second) :
    windowOf now = windowOf a ∨ windowOf now = windowOf a + 1 := by
  rw [windowOf_eq, windowOf_eq]
  have hstart := Nat.div_le_div_right (c := 60 * second) hlow
  have hend : now / (60 * second) < a / (60 * second) + 1 + 1 := by
    rw [← Nat.add_div_right a (by decide : 0 < 60 * second)]
    exact Nat.lt_succ_of_le (Nat.div_le_div_right (Nat.le_of_lt hhigh))
  omega

/-! ## The counters -/

section System

variable {κ : Type} [DecidableEq κ] (limitPerMinute : κ → Nat)

structure Counter where
  count : Nat
  expires : Nat
  deriving DecidableEq

/-- A request that has read the clock. -/
structure Arrival (κ : Type) where
  client : κ
  now : Nat
  deriving DecidableEq

/-- A request, and what `enforce_rate_limit` returned for it. -/
structure Decision (κ : Type) extends Arrival κ where
  allowed : Bool
  remaining : Nat
  retryAfterSeconds : Nat
  deriving DecidableEq

structure State (κ : Type) where
  clock : Nat
  /-- The keys that Redis has, with the time until which it has them. -/
  counters : List ((κ × Nat) × Counter)
  pending : List (Arrival κ)
  answered : List (Decision κ)
  deriving DecidableEq

inductive Action (κ : Type) where
  | wait (duration : Nat)
  /-- `datetime.now`. -/
  | arrive (client : κ)
  /-- `redis.eval`, for one of the requests that have arrived. -/
  | eval (i : Nat)

def key (arrival : Arrival κ) : κ × Nat := (arrival.client, windowOf arrival.now)

/-- The counter of a key that has not expired. -/
def live (s : State κ) (k : κ × Nat) : Option Counter :=
  (Table.get k s.counters).filter fun counter => s.clock ≤ counter.expires

/-- `INCR`, and `EXPIRE` for a counter that is new. -/
def increment (s : State κ) (k : κ × Nat) : Counter :=
  match live s k with
  | some counter => { counter with count := counter.count + 1 }
  | none => ⟨1, s.clock + 60 * second⟩

/-- What is returned for a count. -/
def decision (arrival : Arrival κ) (count : Nat) : Decision κ where
  toArrival := arrival
  allowed := decide (count ≤ limitPerMinute arrival.client)
  remaining := limitPerMinute arrival.client - count
  retryAfterSeconds := retryAfter arrival.now

def step (s : State κ) : Action κ → Option (State κ)
  | .wait duration => some { s with clock := s.clock + duration }
  | .arrive client => some { s with pending := s.pending ++ [⟨client, s.clock⟩] }
  | .eval i =>
      match s.pending[i]? with
      | none => none
      | some arrival =>
          let counter := increment s (key arrival)
          some { s with
            counters := Table.put (key arrival) counter s.counters
            pending := s.pending.eraseIdx i
            answered := s.answered ++ [decision limitPerMinute arrival counter.count] }

/-- `enforce_rate_limit` of all processes. -/
def system : System (State κ) (Action κ) where
  init s := s.counters = [] ∧ s.pending = [] ∧ s.answered = []
  step := step limitPerMinute

/-- The script runs before the counter of the request's minute has expired. -/
def InTime (s : State κ) : Action κ → Prop
  | .eval i => ∀ arrival, s.pending[i]? = some arrival → ∀ counter,
      Table.get (key arrival) s.counters = some counter → s.clock ≤ counter.expires
  | _ => True

/-! ## What is to hold -/

/-- The requests of a key, among those that were answered. -/
def ofKey (k : κ × Nat) (d : Decision κ) : Bool := key d.toArrival = k

def allowedOf (k : κ × Nat) (d : Decision κ) : Bool := d.allowed && ofKey k d

/-- What holds in any run. -/
structure Sound (s : State κ) : Prop where
  /-- A counter is there while its minute lasts. -/
  kept : ∀ client w counter, Table.get (client, w) s.counters = some counter →
    s.clock < (w + 1) * (60 * second) → live s (client, w) = some counter
  retry : ∀ d ∈ s.answered, d.allowed = false →
    windowOf (d.now + d.retryAfterSeconds * second) = windowOf d.now + 1
  /-- A request below the limit is not denied. -/
  below : ∀ i d, s.answered[i]? = some d →
    (s.answered.take i).countP (ofKey (key d.toArrival)) < limitPerMinute d.client →
    d.allowed = true

/-- What the limit is for. -/
structure Limited (s : State κ) : Prop where
  minute : ∀ client w, s.answered.countP (allowedOf (client, w)) ≤ limitPerMinute client
  rolling : ∀ client start, s.answered.countP (fun d => d.allowed && decide (d.client = client ∧
    start ≤ d.now ∧ d.now < start + 60 * second)) ≤ 2 * limitPerMinute client

/-! ## The script -/

variable {limitPerMinute} {s t : State κ}

theorem increment_cases (s : State κ) (k : κ × Nat) :
    (∃ counter, Table.get k s.counters = some counter ∧ s.clock ≤ counter.expires ∧
      increment s k = { counter with count := counter.count + 1 }) ∨
    ((∀ counter, Table.get k s.counters = some counter → counter.expires < s.clock) ∧
      increment s k = ⟨1, s.clock + 60 * second⟩) := by
  rw [increment]
  split
  next counter hlive =>
    obtain ⟨hget, hclock⟩ := Option.filter_eq_some_iff.mp hlive
    exact .inl ⟨counter, hget, of_decide_eq_true hclock, rfl⟩
  next hdead =>
    refine .inr ⟨fun counter hget => ?_, rfl⟩
    have hclock := Option.filter_eq_none_iff.mp hdead counter hget
    simpa using hclock

/-- What one step changes. -/
inductive Effect (limitPerMinute : κ → Nat) (s t : State κ) : Prop where
  | waits (duration : Nat) (h : t = { s with clock := s.clock + duration })
  | arrives (client : κ) (h : t = { s with pending := s.pending ++ [⟨client, s.clock⟩] })
  | evals (i : Nat) (arrival : Arrival κ) (pending : s.pending[i]? = some arrival)
      (h : t = { s with
        counters := Table.put (key arrival) (increment s (key arrival)) s.counters
        pending := s.pending.eraseIdx i
        answered := s.answered ++
          [decision limitPerMinute arrival (increment s (key arrival)).count] })

theorem effect_of_step {a : Action κ} (h : (system limitPerMinute).step s a = some t) :
    Effect limitPerMinute s t := by
  cases a with
  | wait duration => exact .waits duration (Option.some.inj h).symm
  | arrive client => exact .arrives client (Option.some.inj h).symm
  | eval i =>
      simp only [system, step] at h
      split at h
      next => cases h
      next arrival hpending => exact .evals i arrival hpending (Option.some.inj h).symm

/-! ## Any run -/

/-- What holds between the counters and the requests that were answered. -/
structure Consistent (limitPerMinute : κ → Nat) (s : State κ) : Prop where
  arrived : ∀ p ∈ s.pending, p.now ≤ s.clock
  outlives : ∀ k counter, Table.get k s.counters = some counter →
    (k.2 + 1) * (60 * second) ≤ counter.expires
  counted : ∀ k counter, Table.get k s.counters = some counter →
    counter.count ≤ s.answered.countP (ofKey k)
  retry : ∀ d ∈ s.answered, d.retryAfterSeconds = retryAfter d.now
  below : ∀ i d, s.answered[i]? = some d →
    (s.answered.take i).countP (ofKey (key d.toArrival)) < limitPerMinute d.client →
    d.allowed = true

theorem countP_concat_decision (k : κ × Nat) (arrival : Arrival κ) (count : Nat) :
    (s.answered ++ [decision limitPerMinute arrival count]).countP (ofKey k) =
      s.answered.countP (ofKey k) + if key arrival = k then 1 else 0 := by
  rw [List.countP_append, List.countP_singleton]
  by_cases hk : key arrival = k
  · have hin : ofKey k (decision limitPerMinute arrival count) = true := decide_eq_true hk
    rw [if_pos hk, if_pos hin]
  · have hout : ¬ ofKey k (decision limitPerMinute arrival count) = true :=
      fun h => hk (of_decide_eq_true h)
    rw [if_neg hk, if_neg hout]

/-- The count after the script is at most the number of the requests so far, and one. -/
theorem Consistent.increment_le (h : Consistent limitPerMinute s) (k : κ × Nat) :
    (increment s k).count ≤ s.answered.countP (ofKey k) + 1 := by
  obtain ⟨counter, hget, -, heq⟩ | ⟨-, heq⟩ := increment_cases s k
  · rw [heq]
    exact Nat.succ_le_succ (h.counted k counter hget)
  · rw [heq]
    exact Nat.le_add_left 1 _

theorem Consistent.step (h : Consistent limitPerMinute s) (hstep : Effect limitPerMinute s t) :
    Consistent limitPerMinute t := by
  cases hstep with
  | waits duration heq =>
      subst heq
      exact ⟨fun p hp => Nat.le_add_right_of_le (h.arrived p hp), h.outlives, h.counted, h.retry,
        h.below⟩
  | arrives client heq =>
      subst heq
      refine ⟨fun p hp => ?_, h.outlives, h.counted, h.retry, h.below⟩
      obtain hp | hp := List.mem_append.mp hp
      · exact h.arrived p hp
      · obtain rfl := List.mem_singleton.mp hp
        exact Nat.le_refl s.clock
  | evals i arrival hpending heq =>
      have hnow := h.arrived arrival (List.mem_of_getElem? hpending)
      subst heq
      refine ⟨fun p hp => h.arrived p (List.mem_of_mem_eraseIdx hp), ?_, ?_, ?_, ?_⟩
      · intro k counter hget
        rw [Table.get_put] at hget
        split at hget
        next hk =>
          obtain rfl := Option.some.inj hget
          rw [hk]
          obtain ⟨old, hold, -, heq⟩ | ⟨-, heq⟩ := increment_cases s (key arrival)
          · rw [heq]
            exact h.outlives _ old hold
          · -- A counter is made no sooner than its minute began.
            rw [heq, key, windowOf_eq, Nat.succ_mul]
            exact Nat.add_le_add_right (Nat.le_trans (Nat.div_mul_le_self _ _) hnow) _
        next => exact h.outlives k counter hget
      · intro k counter hget
        rw [Table.get_put] at hget
        rw [countP_concat_decision]
        split at hget
        next hk =>
          obtain rfl := Option.some.inj hget
          rw [hk, if_pos rfl]
          exact h.increment_le _
        next => exact Nat.le_add_right_of_le (h.counted k counter hget)
      · intro d hd
        obtain hd | hd := List.mem_append.mp hd
        · exact h.retry d hd
        · rw [List.mem_singleton.mp hd]
          rfl
      · intro j d hj hless
        obtain hold | hnew := Nat.lt_or_ge j s.answered.length
        · rw [List.getElem?_append_left hold] at hj
          rw [List.take_append_of_le_length (Nat.le_of_lt hold)] at hless
          exact h.below j d hj hless
        · rw [List.getElem?_append_right hnew] at hj
          obtain ⟨hj', hd⟩ := List.getElem?_eq_some_iff.mp hj
          rw [List.length_singleton] at hj'
          obtain rfl : j = s.answered.length := by omega
          rw [List.take_left] at hless
          simp only [Nat.sub_self, List.getElem_cons_zero] at hd
          subst hd
          have hcount := h.increment_le (key arrival)
          have hlimit : s.answered.countP (ofKey (key arrival)) < limitPerMinute arrival.client :=
            hless
          exact decide_eq_true (by omega)

theorem Consistent.sound (h : Consistent limitPerMinute s) : Sound limitPerMinute s := by
  refine ⟨?_, ?_, h.below⟩
  · intro client w counter hget hclock
    have hlive : s.clock ≤ counter.expires :=
      Nat.le_trans (Nat.le_of_lt hclock) (h.outlives (client, w) counter hget)
    rw [live, hget, Option.filter_some, if_pos (decide_eq_true hlive)]
  · intro d hd _
    rw [h.retry d hd]
    exact windowOf_retry d.now

/-! ## Runs in which the counters last -/

/-- The counters have counted every request. -/
structure Counted (limitPerMinute : κ → Nat) (s : State κ) : Prop where
  absent : ∀ k, Table.get k s.counters = none → s.answered.countP (ofKey k) = 0
  present : ∀ k counter, Table.get k s.counters = some counter →
    counter.count = s.answered.countP (ofKey k)
  minute : ∀ k, s.answered.countP (allowedOf k) ≤ limitPerMinute k.1

theorem Counted.step (h : Counted limitPerMinute s) {a : Action κ} (hgood : InTime s a)
    (hstep : (system limitPerMinute).step s a = some t) : Counted limitPerMinute t := by
  cases a with
  | wait duration =>
      obtain rfl := Option.some.inj hstep
      exact ⟨h.absent, h.present, h.minute⟩
  | arrive client =>
      obtain rfl := Option.some.inj hstep
      exact ⟨h.absent, h.present, h.minute⟩
  | eval i =>
      simp only [system, RateLimit.step] at hstep
      split at hstep
      next => cases hstep
      next arrival hpending =>
        obtain rfl := Option.some.inj hstep
        have hcount : (increment s (key arrival)).count =
            s.answered.countP (ofKey (key arrival)) + 1 := by
          obtain ⟨counter, hget, -, heq⟩ | ⟨hexpired, heq⟩ := increment_cases s (key arrival)
          · rw [heq, ← h.present _ counter hget]
          · -- No counter has expired, so this is the first request.
            cases hget : Table.get (key arrival) s.counters with
            | none => rw [heq, h.absent _ hget]
            | some counter =>
                have hlate := hexpired counter hget
                have hlive := hgood arrival hpending counter hget
                omega
        refine ⟨?_, ?_, ?_⟩
        · intro k hget
          rw [Table.get_put] at hget
          split at hget
          next => cases hget
          next hk =>
            rw [countP_concat_decision, if_neg (Ne.symm hk), h.absent k hget]
        · intro k counter hget
          rw [Table.get_put] at hget
          rw [countP_concat_decision]
          split at hget
          next hk =>
            obtain rfl := Option.some.inj hget
            rw [hk, if_pos rfl, hcount]
          next hk => rw [if_neg (Ne.symm hk), Nat.add_zero, h.present k counter hget]
        · intro k
          by_cases hallowed : allowedOf k
              (decision limitPerMinute arrival (increment s (key arrival)).count) = true
          · -- The requests that were allowed are among those that were counted.
            obtain ⟨hok, hkey⟩ := Bool.and_eq_true_iff.mp hallowed
            obtain rfl : key arrival = k := of_decide_eq_true hkey
            have hlimit := of_decide_eq_true hok
            have hmono : s.answered.countP (allowedOf (key arrival)) ≤
                s.answered.countP (ofKey (key arrival)) :=
              List.countP_mono_left fun d _ hd => (Bool.and_eq_true_iff.mp hd).2
            rw [List.countP_append, List.countP_singleton, if_pos hallowed]
            show _ ≤ limitPerMinute arrival.client
            omega
          · rw [List.countP_append, List.countP_singleton, if_neg hallowed, Nat.add_zero]
            exact h.minute k

theorem Counted.limited (h : Counted limitPerMinute s) : Limited limitPerMinute s := by
  refine ⟨fun client w => h.minute (client, w), fun client start => ?_⟩
  have hboth : s.answered.countP (fun d => d.allowed && decide (d.client = client ∧
      start ≤ d.now ∧ d.now < start + 60 * second)) ≤
      s.answered.countP (allowedOf (client, windowOf start)) +
        s.answered.countP (allowedOf (client, windowOf start + 1)) := by
    induction s.answered with
    | nil => exact Nat.le_refl 0
    | cons d rest ih =>
        rw [List.countP_cons, List.countP_cons, List.countP_cons]
        by_cases hd : (d.allowed && decide (d.client = client ∧
            start ≤ d.now ∧ d.now < start + 60 * second)) = true
        · obtain ⟨hallowed, hspan⟩ := Bool.and_eq_true_iff.mp hd
          obtain ⟨rfl, hlow, hhigh⟩ := of_decide_eq_true hspan
          rw [if_pos hd]
          obtain hfirst | hnext := windowOf_span hlow hhigh
          · have hin : allowedOf (d.client, windowOf start) d = true := by
              rw [allowedOf, hallowed, ← hfirst]
              exact decide_eq_true rfl
            rw [if_pos hin]
            omega
          · have hin : allowedOf (d.client, windowOf start + 1) d = true := by
              rw [allowedOf, hallowed, ← hnext]
              exact decide_eq_true rfl
            rw [if_pos hin]
            omega
        · rw [if_neg hd]
          omega
  have hfirst := h.minute (client, windowOf start)
  have hnext := h.minute (client, windowOf start + 1)
  simp only at hfirst hnext
  omega

/-- **The rate limit.**  In any run a counter lasts as long as its minute, a request below the limit
    is not denied, and a denied one is told to retry in the next minute; no more requests than the
    limit are allowed in a minute, when each runs its script before its counter has expired. -/
theorem enforceRateLimit_runs (limitPerMinute : κ → Nat) :
    (∀ s, (system limitPerMinute).Reachable System.anyStep s → Sound limitPerMinute s) ∧
      ∀ s, (system limitPerMinute).Reachable InTime s →
        Sound limitPerMinute s ∧ Limited limitPerMinute s := by
  have hsound (s : State κ) (h : (system limitPerMinute).Reachable System.anyStep s) :
      Sound limitPerMinute s := by
    refine Consistent.sound (h.invariant (Consistent limitPerMinute) ?_ ?_)
    · rintro s ⟨hcounters, hpending, hanswered⟩
      refine ⟨?_, ?_, ?_, ?_, ?_⟩
      · simp [hpending]
      · simp [hcounters, Table.get, Table.lookup]
      · simp [hcounters, Table.get, Table.lookup]
      · simp [hanswered]
      · simp [hanswered]
    · intro s a t hs _ hstep
      exact hs.step (effect_of_step hstep)
  refine ⟨hsound, fun s h => ⟨hsound s (h.mono fun _ _ _ => trivial), ?_⟩⟩
  refine Counted.limited (h.invariant (Counted limitPerMinute) ?_ ?_)
  · rintro s ⟨hcounters, hpending, hanswered⟩
    refine ⟨?_, ?_, ?_⟩
    · simp [hanswered]
    · simp [hcounters, Table.get, Table.lookup]
    · simp [hanswered]
  · intro s a t hs hgood hstep
    exact hs.step hgood hstep

end System

/-- A request reads the clock just before its minute ends, and its script runs just after the
    counter that the minute's first request made has gone. -/
def lateRequest : List (Action String) :=
  [.arrive "client", .eval 0, .wait 59999000, .arrive "client", .wait 2000, .eval 0]

theorem late_request_allowed :
    ¬ ∀ (limitPerMinute : String → Nat) (s : State String),
      (system limitPerMinute).Reachable System.anyStep s →
        Sound limitPerMinute s ∧ Limited limitPerMinute s := by
  intro h
  obtain ⟨s, hs⟩ : ∃ s, (system fun _ => 1).exec ⟨0, [], [], []⟩ lateRequest = some s := ⟨_, rfl⟩
  have hlimited := (h (fun _ => 1) s ⟨_, ⟨rfl, rfl, rfl⟩, System.path_of_exec _ hs⟩).2
  have hminute := hlimited.minute "client" 0
  have htwo : ((system fun _ => 1).exec ⟨0, [], [], []⟩ lateRequest).map (fun s =>
      s.answered.countP (allowedOf ("client", 0))) = some 2 := by decide +kernel
  rw [hs, Option.map_some, Option.some.injEq] at htwo
  omega

end RateLimit
end Production
end HermesPlatform
