/-
  HermesPlatform.Gateway.ModelCapacity

  The concurrency slots of the model gateway: `chat_completions` from the queue of the
  semaphore to the end of the response, and `_release_capacity`.

  A request is suspended at one await at a time.  What is awaited returns or raises, a
  cancellation among the exceptions, and the code runs on to the next await.  Two ghost
  counters of a request record how often it has taken a slot and how often
  `_release_capacity` has been called for it.
-/

import HermesPlatform.Lib.Parties
import HermesPlatform.Lib.Semaphore
import HermesPlatform.Lib.Transition

namespace HermesPlatform
namespace ModelGateway

open Asyncio Parties Transition

/-! ## A request -/

/-- What can be raised: `httpx.TimeoutException`, any other `httpx.HTTPError`, anything else
    (`CancelledError` and `GeneratorExit` are among these). -/
inductive Failure where
  | timeout
  | http
  | other
deriving DecidableEq, Repr

inductive Answer where
  /-- An `HTTPException`. -/
  | error (status : Nat)
  /-- A `JSONResponse` with the status of the upstream one. -/
  | json (status : Nat)
  | streamed (status : Nat)
  /-- The exception leaves the handler or the response. -/
  | raised
deriving DecidableEq, Repr

/-- Where a request is suspended. -/
inductive Phase where
  /-- In `capacity.acquire()`; cancelled is set by the time-out of the queue too. -/
  | waiting (cancelled timedOut : Bool)
  /-- It has its slot and is counted. -/
  | acquired
  /-- `_send_with_retry`: in `client.post` of an attempt. -/
  | posting (attempt : Nat)
  | sleeping (attempt : Nat)
  /-- In `client.send(upstream_request, stream=True)`. -/
  | sending
  /-- In `upstream.aread()`. -/
  | reading (status : Nat)
  /-- In the `upstream.aclose()` after it. -/
  | closingError (status : Nat)
  /-- The `StreamingResponse` is returned and `relay()` has not been started. -/
  | responding (status : Nat)
  /-- `relay`: in `upstream.aiter_bytes()`. -/
  | pulling (status : Nat)
  /-- `relay`: at its `yield`. -/
  | yielded (status : Nat)
  /-- `relay`: in the `upstream.aclose()` of its `finally`. -/
  | closing (status : Nat) (raised : Bool)
  | ended (answer : Answer)
deriving DecidableEq, Repr

structure Request where
  /-- `payload.get("stream")` is true. -/
  stream : Bool
  /-- `resolved.max_retries` -/
  maxRetries : Int
  phase : Phase
  taken : Nat
  released : Nat
deriving DecidableEq, Repr

inductive Event where
  /-- The synchronous code up to the first await. -/
  | start
  /-- An upstream response with its status. -/
  | responded (status : Nat)
  /-- What is awaited returns. -/
  | returned
  | raised (failure : Failure)
  /-- The next chunk is asked for. -/
  | iterate
  | chunk
  | exhausted
  /-- The response goes away without having been iterated. -/
  | dropped
deriving DecidableEq, Repr

/-- `retry_statuses` -/
def retryStatus (status : Nat) : Bool := status ∈ [429, 502, 503, 504]

/-- `upstream.is_error` -/
def isError (status : Nat) : Bool := 400 ≤ status && status ≤ 599

/-- The `except` clauses of the handler. -/
def Failure.answer : Failure → Answer
  | .timeout => .error 504
  | .http => .error 502
  | .other => .raised

/-- From one await to the next; the flag says whether `_release_capacity` is called on the
    way. -/
def advance (r : Request) : Event → Option (Bool × Phase)
  | .start =>
      match r.phase, r.stream with
      | .acquired, true => some (false, .sending)
      -- For a negative number of retries the assertion after the loop fails.
      | .acquired, false =>
          if 0 ≤ r.maxRetries then some (false, .posting 0) else some (true, .ended .raised)
      | _, _ => none
  | .responded status =>
      match r.phase with
      | .posting attempt =>
          if retryStatus status ∧ (attempt : Int) < r.maxRetries then
            some (false, .sleeping attempt)
          else some (true, .ended (.json status))
      | .sending =>
          some (false, if isError status then .reading status else .responding status)
      | _ => none
  | .returned =>
      match r.phase with
      | .sleeping attempt => some (false, .posting (attempt + 1))
      | .reading status => some (false, .closingError status)
      | .closingError status => some (true, .ended (.json status))
      | .closing status raised =>
          some (true, .ended (if raised then .raised else .streamed status))
      | _ => none
  | .raised failure =>
      match r.phase, r.stream with
      -- `build_request`
      | .acquired, true => some (false, .ended .raised)
      | .posting _, _ => some (true, .ended failure.answer)
      | .sleeping _, _ => some (true, .ended .raised)
      | .sending, _ => some (failure ≠ .other, .ended failure.answer)
      | .reading _, _ => some (false, .ended .raised)
      | .closingError _, _ => some (false, .ended .raised)
      | .pulling status, _ => some (false, .closing status true)
      | .yielded status, _ => some (false, .closing status true)
      | .closing _ _, _ => some (false, .ended .raised)
      | _, _ => none
  | .iterate =>
      match r.phase with
      | .responding status => some (false, .pulling status)
      | .yielded status => some (false, .pulling status)
      | _ => none
  | .chunk =>
      match r.phase with
      | .pulling status => some (false, .yielded status)
      | _ => none
  | .exhausted =>
      match r.phase with
      | .pulling status => some (false, .closing status false)
      | _ => none
  | .dropped =>
      match r.phase with
      | .responding _ => some (false, .ended .raised)
      | _ => none

/-! ## The gateway -/

/-- `app.state`, and the requests that have come to the semaphore. -/
structure Gateway where
  capacity : Semaphore Nat
  active : Nat
  peak : Nat
  requests : List Request
deriving DecidableEq, Repr

inductive Action where
  | arrive (stream : Bool) (maxRetries : Int)
  /-- The queue times out, or the request is cancelled in it. -/
  | cancel (i : Nat) (timedOut : Bool)
  /-- The coroutine of `capacity.acquire()` runs on. -/
  | resume (i : Nat)
  | event (i : Nat) (e : Event)
deriving DecidableEq, Repr

/-- A slot is taken for the request of the place `i`. -/
def enter (s : Gateway) (capacity : Semaphore Nat) (requests : List Request) : Gateway :=
  { capacity := capacity
    active := s.active + 1
    peak := max s.peak (s.active + 1)
    requests := requests }

/-- `_release_capacity` -/
def releaseCapacity (s : Gateway) : Gateway :=
  { s with
    active := max 0 (s.active - 1)
    capacity := s.capacity.release }

def step (s : Gateway) : Action → Option Gateway
  | .arrive stream maxRetries =>
      match s.capacity.acquire s.requests.length with
      | (true, capacity) =>
          some (enter s capacity (s.requests ++ [⟨stream, maxRetries, .acquired, 1, 0⟩]))
      | (false, capacity) =>
          some
            { s with
              capacity := capacity
              requests := s.requests ++ [⟨stream, maxRetries, .waiting false false, 0, 0⟩] }
  | .cancel i timedOut =>
      s.requests[i]?.bind fun r =>
        match r.phase with
        | .waiting cancelled was =>
            -- The time-out is reported only where nothing else has cancelled the request.
            some
              { s with
                capacity := s.capacity.cancel i
                requests := s.requests.set i
                  { r with phase := .waiting true (timedOut && (!cancelled || was)) } }
        | _ => none
  | .resume i =>
      s.requests[i]?.bind fun r =>
        match r.phase with
        | .waiting cancelled timedOut =>
            (s.capacity.resume i cancelled).map fun (ok, capacity) =>
              if ok then
                enter s capacity (s.requests.set i { r with phase := .acquired, taken := r.taken + 1 })
              else
                { s with
                  capacity := capacity
                  requests := s.requests.set i
                    { r with phase := .ended (if timedOut then .error 503 else .raised) } }
        | _ => none
  | .event i e =>
      s.requests[i]?.bind fun r =>
        (advance r e).map fun (release, phase) =>
          if release then
            { releaseCapacity s with
              requests := s.requests.set i
                { r with phase := phase, released := r.released + 1 } }
          else { s with requests := s.requests.set i { r with phase := phase } }

def Phase.waits : Phase → Bool
  | .waiting _ _ => true
  | _ => false

def Phase.hasEnded : Phase → Bool
  | .ended _ => true
  | _ => false

/-- It has its slot and has not ended. -/
def Request.inFlight (r : Request) : Bool := !r.phase.waits && !r.phase.hasEnded

/-- The capacity of the process, `model_max_concurrency`. -/
def system (maxConcurrency : Nat) : System Gateway Action where
  init s := s = ⟨⟨maxConcurrency, []⟩, 0, 0, []⟩
  step := step

/-- What the accounting promises. -/
structure CapacityLaw (maxConcurrency : Nat) (s : Gateway) : Prop where
  /-- Whatever has been taken is released, once and at the end. -/
  once : ∀ r ∈ s.requests, r.taken ≤ 1 ∧ r.released = if r.phase.hasEnded then r.taken else 0
  active : s.active = s.requests.countP (·.inFlight)
  bounded : s.active ≤ maxConcurrency
  idle : (∀ r ∈ s.requests, r.phase.hasEnded) →
    s.active = 0 ∧ s.capacity = ⟨maxConcurrency, []⟩

/-- An exception that leaves the code without passing a `_release_capacity`. -/
def escapes : Phase → Event → Bool
  | .acquired, .raised _ => true
  | .sending, .raised failure => failure = .other
  | .reading _, .raised _ => true
  | .closingError _, .raised _ => true
  | .responding _, .dropped => true
  | .closing _ _, .raised _ => true
  | _, _ => false

/-- No request loses its slot. -/
def Contained (s : Gateway) : Action → Prop
  | .event i e => ∀ r ∈ s.requests[i]?, escapes r.phase e = false
  | _ => True

instance : ∀ (s : Gateway) (a : Action), Decidable (Contained s a)
  | s, .event i e => inferInstanceAs
      (Decidable (∀ r ∈ s.requests[i]?, escapes r.phase e = false))
  | _, .arrive _ _ => isTrue trivial
  | _, .cancel _ _ => isTrue trivial
  | _, .resume _ => isTrue trivial

/-! ## The invariant -/

theorem advance_spec {r : Request} {e : Event} {release : Bool} {phase : Phase}
    (h : advance r e = some (release, phase)) :
    r.inFlight ∧ phase.waits = false ∧ phase.hasEnded = (release || escapes r.phase e) ∧
      (release → escapes r.phase e = false) := by
  cases e with
  | start =>
      simp only [advance] at h
      split at h
      next hphase _ =>
        cases h
        simp [Request.inFlight, Phase.waits, Phase.hasEnded, hphase, escapes]
      next hphase _ =>
        split at h <;> cases h <;> simp [Request.inFlight, Phase.waits, Phase.hasEnded, hphase, escapes]
      next => cases h
  | responded status =>
      simp only [advance] at h
      split at h
      next hphase =>
        split at h <;> cases h <;> simp [Request.inFlight, Phase.waits, Phase.hasEnded, hphase, escapes]
      next hphase =>
        cases h
        cases isError status <;> simp [Request.inFlight, Phase.waits, Phase.hasEnded, hphase, escapes]
      next => cases h
  | returned =>
      simp only [advance] at h
      split at h <;> cases h
      all_goals simp [Request.inFlight, Phase.waits, Phase.hasEnded, *, escapes]
  | raised failure =>
      simp only [advance] at h
      split at h <;> cases h
      all_goals simp [Request.inFlight, Phase.waits, Phase.hasEnded, *, escapes]
  | iterate =>
      simp only [advance] at h
      split at h <;> cases h
      all_goals simp [Request.inFlight, Phase.waits, Phase.hasEnded, *, escapes]
  | chunk =>
      simp only [advance] at h
      split at h <;> cases h
      simp [Request.inFlight, Phase.waits, Phase.hasEnded, *, escapes]
  | exhausted =>
      simp only [advance] at h
      split at h <;> cases h
      simp [Request.inFlight, Phase.waits, Phase.hasEnded, *, escapes]
  | dropped =>
      simp only [advance] at h
      split at h <;> cases h
      simp [Request.inFlight, Phase.waits, Phase.hasEnded, *, escapes]

/-- The slot is taken and has not been given back. -/
def Request.holds (r : Request) : Bool := r.released < r.taken

/-- It has ended with its slot. -/
def Request.Leaked (r : Request) : Prop := r.phase.hasEnded ∧ r.holds

theorem Request.not_leaked {r : Request} (h : r.phase.hasEnded = false) : ¬ r.Leaked := by
  rintro ⟨hended, -⟩
  rw [h] at hended
  cases hended

/-- The two counters of a request, by where it is. -/
structure Request.Ok (r : Request) : Prop where
  taken : r.taken ≤ 1
  released : r.released ≤ r.taken
  waiting : r.phase.waits → r.taken = 0
  inFlight : r.inFlight → r.holds

/-- It has not come to a slot yet. -/
theorem Request.Ok.of_waiting {r : Request} (h : r.Ok) (hwaits : r.phase.waits) {phase : Phase}
    (hphase : phase.waits ∨ phase.hasEnded) : Request.Ok { r with phase := phase } where
  taken := h.taken
  released := h.released
  waiting := fun _ => h.waiting hwaits
  inFlight := by
    intro hinFlight
    obtain hphase | hphase := hphase <;> simp [Request.inFlight, hphase] at hinFlight

structure CapacityInv (maxConcurrency : Nat) (s : Gateway) : Prop where
  ok : ∀ r ∈ s.requests, r.Ok
  permits : s.capacity.permits + s.active = maxConcurrency
  active : s.active = s.requests.countP (·.holds)
  nodup : (s.capacity.waiters.map Prod.fst).Nodup
  waits : ∀ i ∈ s.capacity.waiters.map Prod.fst, ∃ r ∈ s.requests[i]?, r.phase.waits

def NoLeak (s : Gateway) : Prop := ∀ r ∈ s.requests, ¬ r.Leaked

namespace CapacityInv

variable {maxConcurrency : Nat} {s : Gateway} {i : Nat} {r r' : Request}

theorem init : CapacityInv maxConcurrency ⟨⟨maxConcurrency, []⟩, 0, 0, []⟩ where
  ok := fun _ hr => nomatch hr
  permits := rfl
  active := rfl
  nodup := List.nodup_nil
  waits := fun _ hi => nomatch hi

/-- One request changes, and the semaphore with it. -/
theorem set (h : CapacityInv maxConcurrency s) (hget : s.requests[i]? = some r) (hok : r'.Ok)
    {capacity : Semaphore Nat} {active : Nat} (peak : Nat)
    (hpermits : capacity.permits + active = maxConcurrency)
    (hactive : active + (if r.holds then 1 else 0) = s.active + if r'.holds then 1 else 0)
    (hnodup : (capacity.waiters.map Prod.fst).Nodup)
    (hwaits : ∀ j ∈ capacity.waiters.map Prod.fst,
      j ∈ s.capacity.waiters.map Prod.fst ∧ (j = i → r'.phase.waits)) :
    CapacityInv maxConcurrency ⟨capacity, active, peak, s.requests.set i r'⟩ where
  ok := by
    intro x hx
    obtain hx | rfl := List.mem_or_eq_of_mem_set hx
    · exact h.ok x hx
    · exact hok
  permits := hpermits
  active := by
    have hcount := countP_set (Request.holds ·) hget r'
    have hold := h.active
    simp only at hcount ⊢
    omega
  nodup := hnodup
  waits := by
    intro j hj
    obtain ⟨hold, hself⟩ := hwaits j hj
    obtain ⟨x, hx, hphase⟩ := h.waits j hold
    simp only [List.getElem?_set]
    split
    next hij =>
      have hlt : i < s.requests.length := (List.getElem?_eq_some_iff.mp hget).1
      rw [if_pos hlt]
      exact ⟨r', rfl, hself hij.symm⟩
    next => exact ⟨x, hx, hphase⟩

theorem append (h : CapacityInv maxConcurrency s) (hok : r'.Ok) {capacity : Semaphore Nat}
    {active : Nat} (peak : Nat) (hpermits : capacity.permits + active = maxConcurrency)
    (hactive : active = s.active + if r'.holds then 1 else 0)
    (hnodup : (capacity.waiters.map Prod.fst).Nodup)
    (hwaits : ∀ j ∈ capacity.waiters.map Prod.fst,
      j ∈ s.capacity.waiters.map Prod.fst ∨ j = s.requests.length ∧ r'.phase.waits) :
    CapacityInv maxConcurrency ⟨capacity, active, peak, s.requests ++ [r']⟩ where
  ok := by
    rw [List.forall_mem_append, List.forall_mem_singleton]
    exact ⟨h.ok, hok⟩
  permits := hpermits
  active := by
    have hold := h.active
    simp only [List.countP_append, List.countP_singleton]
    omega
  nodup := hnodup
  waits := by
    intro j hj
    obtain hold | ⟨rfl, hself⟩ := hwaits j hj
    · obtain ⟨x, hx, hphase⟩ := h.waits j hold
      refine ⟨x, ?_, hphase⟩
      have hlt : j < s.requests.length := (List.getElem?_eq_some_iff.mp hx).1
      rw [Option.mem_def, List.getElem?_append_left hlt]
      exact hx
    · exact ⟨r', List.getElem?_concat_length, hself⟩

/-- The place of a new request is not among the waiters. -/
theorem fresh (h : CapacityInv maxConcurrency s) :
    s.requests.length ∉ s.capacity.waiters.map Prod.fst := by
  intro hmem
  obtain ⟨r, hr, -⟩ := h.waits _ hmem
  have hlt : s.requests.length < s.requests.length := (List.getElem?_eq_some_iff.mp hr).1
  omega

theorem arrive (h : CapacityInv maxConcurrency s) {stream : Bool} {maxRetries : Int} {s' : Gateway}
    (hstep : ModelGateway.step s (.arrive stream maxRetries) = some s') :
    CapacityInv maxConcurrency s' ∧ (NoLeak s' ↔ NoLeak s) := by
  have happend : ∀ r' : Request, r'.phase.hasEnded = false → ∀ capacity active peak,
      (NoLeak ⟨capacity, active, peak, s.requests ++ [r']⟩ ↔ NoLeak s) := by
    intro r' hphase _ _ _
    simp only [NoLeak, List.forall_mem_append, List.forall_mem_singleton]
    exact and_iff_left (Request.not_leaked hphase)
  have hpermits := h.permits
  simp only [ModelGateway.step] at hstep
  split at hstep
  next capacity hacquire =>
    obtain ⟨htaken, hwaiters⟩ := Semaphore.acquire_true hacquire
    cases hstep
    have hok : Request.Ok ⟨stream, maxRetries, .acquired, 1, 0⟩ :=
      ⟨Nat.le_refl _, Nat.zero_le _, fun hw => (nomatch hw), fun _ => rfl⟩
    refine ⟨h.append hok _ (by omega) rfl ?_ ?_, happend _ rfl _ _ _⟩
    · rw [hwaiters]
      exact h.nodup
    · rw [hwaiters]
      exact fun j hj => .inl hj
  next capacity hacquire =>
    obtain ⟨hsame, hwaiters⟩ := Semaphore.acquire_false hacquire
    cases hstep
    have hok : Request.Ok ⟨stream, maxRetries, .waiting false false, 0, 0⟩ :=
      ⟨Nat.zero_le _, Nat.le_refl _, fun _ => rfl, fun hf => (nomatch hf)⟩
    refine ⟨h.append hok _ (by omega) rfl ?_ ?_, happend _ rfl _ _ _⟩
    · rw [hwaiters, List.map_append, List.map_singleton]
      exact List.nodup_append.mpr ⟨h.nodup, List.nodup_singleton _, by
        rintro a ha b hb rfl
        obtain rfl := List.mem_singleton.mp hb
        exact h.fresh ha⟩
    · rw [hwaiters, List.map_append, List.map_singleton]
      intro j hj
      obtain hj | hj := List.mem_append.mp hj
      · exact .inl hj
      · exact .inr ⟨List.mem_singleton.mp hj, rfl⟩

/-- A request that is not at its end keeps its state, or goes on to another. -/
theorem noLeak_set (hget : s.requests[i]? = some r) (hr : ¬ r.Leaked)
    (capacity : Semaphore Nat) (active peak : Nat) :
    NoLeak ⟨capacity, active, peak, s.requests.set i r'⟩ ↔ NoLeak s ∧ ¬ r'.Leaked :=
  forall_mem_set_iff hget hr

theorem cancel (h : CapacityInv maxConcurrency s) {timedOut : Bool} {s' : Gateway}
    (hstep : ModelGateway.step s (.cancel i timedOut) = some s') :
    CapacityInv maxConcurrency s' ∧ (NoLeak s' ↔ NoLeak s) := by
  obtain ⟨r, hget, hstep⟩ := Option.bind_eq_some_iff.mp hstep
  have hok : r.Ok := h.ok r (List.mem_of_getElem? hget)
  split at hstep
  next cancelled was hphase =>
    cases hstep
    have hwaiting : r.phase.waits = true := by rw [hphase]; rfl
    have hended : r.phase.hasEnded = false := by rw [hphase]; rfl
    constructor
    · refine h.set hget (hok.of_waiting hwaiting (.inl rfl)) s.peak ?_ rfl ?_ ?_
      · rw [Semaphore.permits_cancel]
        exact h.permits
      · rw [Semaphore.keys_cancel]
        exact h.nodup
      · rw [Semaphore.keys_cancel]
        exact fun j hj => ⟨hj, fun _ => rfl⟩
    · rw [noLeak_set hget (Request.not_leaked hended)]
      exact and_iff_left (Request.not_leaked rfl)
  next => cases hstep

theorem resume (h : CapacityInv maxConcurrency s) {s' : Gateway}
    (hstep : ModelGateway.step s (.resume i) = some s') :
    CapacityInv maxConcurrency s' ∧ (NoLeak s' ↔ NoLeak s) := by
  obtain ⟨r, hget, hstep⟩ := Option.bind_eq_some_iff.mp hstep
  have hok : r.Ok := h.ok r (List.mem_of_getElem? hget)
  have hpermits := h.permits
  split at hstep
  next cancelled timedOut hphase =>
    obtain ⟨⟨ok, capacity⟩, hresume, hstep⟩ := Option.map_eq_some_iff.mp hstep
    have htaken : r.taken = 0 := hok.waiting (by rw [hphase]; rfl)
    have hreleased : r.released = 0 := by
      have hle := hok.released
      omega
    have hkeep := Semaphore.permits_resume hresume
    obtain ⟨hnodup, hkeys⟩ := Semaphore.keys_resume h.nodup hresume
    have hwaits : ∀ (phase : Phase), ∀ j ∈ capacity.waiters.map Prod.fst,
        j ∈ s.capacity.waiters.map Prod.fst ∧ (j = i → phase.waits) := fun _ j hj =>
      ⟨(hkeys j hj).1, fun hji => absurd hji (hkeys j hj).2⟩
    have hwaiting : r.phase.waits = true := by rw [hphase]; rfl
    have hleaked : ¬ r.Leaked := Request.not_leaked (by rw [hphase]; rfl)
    have hholds : r.holds = false := by simp [Request.holds, htaken, hreleased]
    cases ok with
    | true =>
        cases hstep
        simp only [if_true] at hkeep ⊢
        have hholds' : Request.holds { r with phase := .acquired, taken := r.taken + 1 } = true := by
          simp [Request.holds, htaken, hreleased]
        have hok' : Request.Ok { r with phase := .acquired, taken := r.taken + 1 } :=
          ⟨by simp [htaken], by simp [htaken, hreleased], fun hw => (nomatch hw),
            fun _ => hholds'⟩
        constructor
        · refine h.set hget hok' _ (by omega) ?_ hnodup (hwaits _)
          rw [hholds, hholds']
          rfl
        · exact (noLeak_set hget hleaked _ _ _).trans (and_iff_left (Request.not_leaked rfl))
    | false =>
        cases hstep
        simp only [Bool.false_eq_true, if_false] at hkeep ⊢
        constructor
        · exact h.set hget (hok.of_waiting hwaiting (.inr rfl)) _ (by omega) rfl hnodup (hwaits _)
        · refine (noLeak_set hget hleaked _ _ _).trans (and_iff_left ?_)
          rintro ⟨-, hheld⟩
          have hheld' : r.holds = true := hheld
          rw [hholds] at hheld'
          cases hheld'
  next => cases hstep

theorem event (h : CapacityInv maxConcurrency s) {e : Event} {s' : Gateway}
    (hstep : ModelGateway.step s (.event i e) = some s') :
    CapacityInv maxConcurrency s' ∧ (NoLeak s' ↔ NoLeak s ∧ Contained s (.event i e)) := by
  obtain ⟨r, hget, hstep⟩ := Option.bind_eq_some_iff.mp hstep
  obtain ⟨⟨release, phase⟩, hadvance, hstep⟩ := Option.map_eq_some_iff.mp hstep
  obtain ⟨hinFlight, hwaits, hended, hrelease⟩ := advance_spec hadvance
  have hok : r.Ok := h.ok r (List.mem_of_getElem? hget)
  have hholds : r.holds = true := hok.inFlight hinFlight
  have hlt : r.released < r.taken := by simpa [Request.holds] using hholds
  have htaken : r.taken ≤ 1 := hok.taken
  have hpermits := h.permits
  have hleaked : ¬ r.Leaked := by
    intro hleak
    simp [Request.inFlight, hleak.1] at hinFlight
  have hcontained : Contained s (.event i e) ↔ escapes r.phase e = false := by
    simp [Contained, hget]
  -- The request at `i` is not waiting, so that no waiter has its place.
  have hkeys : ∀ j ∈ s.capacity.waiters.map Prod.fst,
      j ∈ s.capacity.waiters.map Prod.fst ∧ (j = i → phase.waits) := by
    intro j hj
    refine ⟨hj, ?_⟩
    rintro rfl
    obtain ⟨x, hx, hphase⟩ := h.waits j hj
    rw [Option.mem_def, hget, Option.some.injEq] at hx
    rw [← hx] at hphase
    simp [Request.inFlight, hphase] at hinFlight
  have hnoWait : ∀ released, Request.phase { r with phase := phase, released := released } = phase :=
    fun _ => rfl
  cases release with
  | true =>
      cases hstep
      have hpos : 0 < s.active := by
        rw [h.active, List.countP_pos_iff]
        exact ⟨r, List.mem_of_getElem? hget, hholds⟩
      have hdone : Request.holds { r with phase := phase, released := r.released + 1 } = false := by
        simp only [Request.holds, decide_eq_false_iff_not]
        omega
      have hok' : Request.Ok { r with phase := phase, released := r.released + 1 } :=
        { taken := htaken
          released := hlt
          waiting := fun hw => by rw [hnoWait, hwaits] at hw; cases hw
          inFlight := fun hf => by simp [Request.inFlight, hended] at hf }
      constructor
      · refine h.set hget hok' _ ?_ ?_ ?_ ?_
        · simp only [releaseCapacity, Semaphore.permits_release, Nat.zero_max]
          omega
        · simp only [releaseCapacity, Nat.zero_max, hholds, hdone, if_true, Bool.false_eq_true,
            if_false]
          omega
        · rw [releaseCapacity, Semaphore.keys_release]
          exact h.nodup
        · rw [releaseCapacity, Semaphore.keys_release]
          exact hkeys
      · refine (noLeak_set hget hleaked _ _ _).trans (and_congr_right fun _ => ?_)
        rw [hcontained]
        simp [Request.Leaked, hdone, hrelease rfl]
  | false =>
      cases hstep
      rw [Bool.false_or] at hended
      have hholds' : Request.holds { r with phase := phase } = true := hholds
      have hok' : Request.Ok { r with phase := phase } :=
        { taken := htaken
          released := hok.released
          waiting := fun hw => by rw [hnoWait r.released, hwaits] at hw; cases hw
          inFlight := fun _ => hholds' }
      constructor
      · refine h.set hget hok' _ hpermits ?_ h.nodup hkeys
        rw [hholds, hholds']
      · refine (noLeak_set hget hleaked _ _ _).trans (and_congr_right fun _ => ?_)
        rw [hcontained]
        simp [Request.Leaked, hholds', hended]

theorem step (h : CapacityInv maxConcurrency s) {a : Action} {s' : Gateway}
    (hstep : ModelGateway.step s a = some s') :
    CapacityInv maxConcurrency s' ∧ (NoLeak s' ↔ NoLeak s ∧ Contained s a) := by
  cases a with
  | arrive stream maxRetries => simpa [Contained] using h.arrive hstep
  | cancel i timedOut => simpa [Contained] using h.cancel hstep
  | resume i => simpa [Contained] using h.resume hstep
  | event i e => exact h.event hstep

/-- A slot that is lost stays lost. -/
theorem exec_iff (as : List Action) {t : Gateway} (h : CapacityInv maxConcurrency s)
    (hexec : (system maxConcurrency).exec s as = some t) :
    CapacityInv maxConcurrency t ∧
      (NoLeak t ↔ NoLeak s ∧ (system maxConcurrency).Allowed Contained s as) := by
  induction as generalizing s with
  | nil =>
      cases hexec
      exact ⟨h, (and_iff_left trivial).symm⟩
  | cons a as ih =>
      obtain ⟨mid, hmid, hexec⟩ := Option.bind_eq_some_iff.mp hexec
      obtain ⟨hinv, hleak⟩ := h.step hmid
      obtain ⟨hinv', hleak'⟩ := ih hinv hexec
      refine ⟨hinv', ?_⟩
      have hrest : (system maxConcurrency).Allowed Contained s (a :: as) ↔
          Contained s a ∧ (system maxConcurrency).Allowed Contained mid as := by
        have hstep : (system maxConcurrency).step s a = some mid := hmid
        simp [System.Allowed, hstep]
      rw [hleak', hleak, hrest, and_assoc]

theorem law_iff (h : CapacityInv maxConcurrency s) : CapacityLaw maxConcurrency s ↔ NoLeak s := by
  constructor
  · rintro hlaw r hr ⟨hended, hholds⟩
    have honce := (hlaw.once r hr).2
    rw [if_pos hended] at honce
    simp [Request.holds, honce] at hholds
  · intro hleak
    -- A request holds a slot exactly while it is in flight.
    have hholds : ∀ r ∈ s.requests, r.holds = r.inFlight := by
      intro r hr
      have hok := h.ok r hr
      cases hinFlight : r.inFlight with
      | true => exact hok.inFlight hinFlight
      | false =>
          by_contra hheld
          rw [Bool.not_eq_false] at hheld
          cases hended : r.phase.hasEnded with
          | true => exact hleak r hr ⟨hended, hheld⟩
          | false =>
              have hwaits : r.phase.waits = true := by
                simpa [Request.inFlight, hended] using hinFlight
              have htaken := hok.waiting hwaits
              simp [Request.holds, htaken] at hheld
    have hactive : s.active = s.requests.countP (·.inFlight) := by
      rw [h.active]
      refine List.countP_congr fun r hr => ?_
      rw [hholds r hr]
    have hpermits := h.permits
    refine ⟨?_, hactive, by omega, ?_⟩
    · intro r hr
      have hok := h.ok r hr
      refine ⟨hok.taken, ?_⟩
      have hheld := hholds r hr
      have hle := hok.released
      split
      next hended =>
        have hlt : ¬ r.released < r.taken := by
          simpa [Request.inFlight, hended, Request.holds] using hheld
        omega
      next hended =>
        have htaken := hok.taken
        cases hwaits : r.phase.waits with
        | true =>
            have hzero := hok.waiting hwaits
            omega
        | false =>
            have hlt : r.released < r.taken := by
              simpa [Request.inFlight, hended, hwaits, Request.holds] using hheld
            omega
    · intro hended
      have hzero : s.active = 0 := by
        rw [hactive, List.countP_eq_zero]
        intro r hr
        simp [Request.inFlight, hended r hr]
      have hnil : s.capacity.waiters = [] := by
        rw [← List.map_eq_nil_iff (f := Prod.fst), List.eq_nil_iff_forall_not_mem]
        intro i hi
        obtain ⟨r, hr, hwaits⟩ := h.waits i hi
        have hend := hended r (List.mem_of_getElem? hr)
        cases hphase : r.phase <;> simp [hphase, Phase.waits, Phase.hasEnded] at hwaits hend
      refine ⟨hzero, ?_⟩
      have hvalue : s.capacity.value = maxConcurrency := by
        rw [← Semaphore.permits_of_waiters_eq_nil hnil]
        omega
      exact Semaphore.mk.injEq .. ▸ ⟨hvalue, hnil⟩

end CapacityInv

/-- **Capacity accounting.** After a run, every slot that was taken is back or with a request in
    flight exactly if no step of the run has let an exception escape. -/
theorem capacity_law_iff (maxConcurrency : Nat) {s t : Gateway} (as : List Action)
    (hinit : (system maxConcurrency).init s) (h : (system maxConcurrency).exec s as = some t) :
    CapacityLaw maxConcurrency t ↔ (system maxConcurrency).Allowed Contained s as := by
  have hs : s = ⟨⟨maxConcurrency, []⟩, 0, 0, []⟩ := hinit
  subst hs
  obtain ⟨hinv, hleak⟩ := CapacityInv.init.exec_iff as h
  have hnone : NoLeak ⟨⟨maxConcurrency, []⟩, 0, 0, []⟩ := fun _ hr => nomatch hr
  rw [hinv.law_iff, hleak]
  exact and_iff_right hnone

/-! ## Runs -/

def idleGateway (maxConcurrency : Nat) : Gateway := ⟨⟨maxConcurrency, []⟩, 0, 0, []⟩

/-- One slot: a stream whose client goes away at a chunk, and behind it a request that is handed
    the slot and one that is cancelled in the queue. -/
def disconnectRun : List Action :=
  [.arrive true 2, .event 0 .start, .arrive false 2, .arrive false 2, .event 0 (.responded 200),
    .event 0 .iterate, .event 0 .chunk, .cancel 1 true, .event 0 (.raised .other), .resume 1,
    .event 0 .returned, .resume 2, .event 2 .start, .event 2 (.responded 503), .event 2 .returned,
    .event 2 (.raised .timeout)]

theorem capacity_law_iff_disconnectRun : ∃ t,
    (system 1).exec (idleGateway 1) disconnectRun = some t ∧
      t.requests.map Request.phase =
        [.ended .raised, .ended (.error 503), .ended (.error 504)] ∧
      CapacityLaw 1 t := by
  refine ⟨_, rfl, by decide, ?_⟩
  exact (capacity_law_iff 1 disconnectRun rfl rfl).mpr (by decide)

/-- The upstream answers with an error and its body cannot be read. -/
def unreadableError : List Action :=
  [.arrive true 2, .event 0 .start, .event 0 (.responded 500), .event 0 (.raised .http)]

/-- The request has ended, and its slot stays taken. -/
theorem unreadableError_leaks : ∃ t,
    (system 1).exec (idleGateway 1) unreadableError = some t ∧
      (∀ r ∈ t.requests, r.phase.hasEnded) ∧ t.active = 1 ∧ t.capacity.value = 0 ∧
      ¬ CapacityLaw 1 t := by
  refine ⟨_, rfl, by decide, by decide, by decide, ?_⟩
  intro hlaw
  have hidle := (hlaw.idle (by decide)).1
  revert hidle
  decide

end ModelGateway
end HermesPlatform
