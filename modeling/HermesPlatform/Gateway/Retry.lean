/-
  HermesPlatform.Gateway.Retry

  The attempts of a REST call in `_invoke_provider`, and what the gateway reports of them.

  The number of attempts is capped, `for attempt in range(min(retries, 2) + 1)`, but what is
  done with an attempt depends on the uncapped policy: with three retries or more, a third
  attempt that times out counts as one that is still to be repeated.  A negative number of
  retries leaves no attempt at all.

  What the provider does at each attempt is a parameter.
-/

import Mathlib.Data.List.Basic
import Mathlib.Data.Nat.Basic
import Mathlib.Tactic.IntervalCases

namespace HermesPlatform
namespace Gateway
namespace Retry

/-! ## The provider -/

/-- What the first lines of a response say. -/
structure Head where
  status : Nat
  /-- `"json" in content_type.lower()`. -/
  json : Bool
deriving DecidableEq, Repr

/-- What comes of reading the rest of a response. -/
inductive Body (ω : Type) where
  /-- `json.loads(content)`, none where that raises. -/
  | content (value : Option ω)
  /-- `_read_limited_response` refuses it. -/
  | tooLarge
  | timeout
  | httpError
deriving DecidableEq, Repr

/-- What comes of an attempt. -/
inductive Outcome (ω : Type) where
  | timeout
  /-- Another `httpx.HTTPError`: the connection fails. -/
  | httpError
  | response (head : Head) (body : Body ω)
deriving DecidableEq, Repr

/-- What decides on the number of attempts. -/
structure Provider where
  /-- `retry_policy["max_retries"]`, where there is one. -/
  maxRetries : Option Int
  operationSideEffect : String
  idempotency : String
deriving DecidableEq, Repr

/-- The operation is read-only or idempotent. -/
def Provider.repeatable (provider : Provider) : Bool :=
  provider.operationSideEffect = "READ_ONLY" || provider.idempotency = "SAFE_RETRY" ||
    provider.idempotency = "IDEMPOTENT"

/-- `int(... or 0)`, and `0` where the operation must not be repeated. -/
def Provider.retries (provider : Provider) : Int :=
  if provider.repeatable then provider.maxRetries.getD 0 else 0

/-- `{429}` or `>= 500`. -/
def retryStatus (status : Nat) : Bool := status = 429 || 500 ≤ status

/-! ## The loop -/

inductive Raised where
  /-- `httpx.TimeoutException`. -/
  | timeout
  /-- Another `httpx.HTTPError`. -/
  | httpError
  /-- `GatewayError(code, ..)`. -/
  | gateway (code : String)
  | assertion
deriving DecidableEq, Repr

/-- `response_status` with `response_headers`, and `content`; `b""` is no JSON. -/
structure Locals (ω : Type) where
  head : Option Head
  content : Option ω
deriving DecidableEq, Repr

/-- How an iteration ends. -/
inductive Iteration (ω : Type) where
  | leave (locals : Locals ω)
  /-- `asyncio.sleep`, and the next one. -/
  | sleep (locals : Locals ω)
  | raised (e : Raised)
deriving DecidableEq, Repr

section Loop

variable {ω : Type} (retries : Int)

/-- `except httpx.TimeoutException`. -/
def timedOut (attempt : Nat) (locals : Locals ω) : Iteration ω :=
  if (attempt : Int) ≥ retries then .raised .timeout else .sleep locals

def iteration (attempt : Nat) (locals : Locals ω) : Outcome ω → Iteration ω
  | .timeout => timedOut retries attempt locals
  | .httpError => .raised .httpError
  | .response head body =>
      let locals := { locals with head := some head }
      if retryStatus head.status && decide ((attempt : Int) < retries) then .sleep locals
      else
        match body with
        | .content value => .leave { locals with content := value }
        | .tooLarge => .raised (.gateway "OUTPUT_INVALID")
        | .timeout => timedOut retries attempt locals
        | .httpError => .raised .httpError

/-- The attempts that are made, and what the loop leaves behind. -/
def loop (outcomes : Nat → Outcome ω) : List Nat → Locals ω → Nat × Except Raised (Locals ω)
  | [], locals => (0, .ok locals)
  | attempt :: rest, locals =>
      match iteration retries attempt locals (outcomes attempt) with
      | .leave locals => (1, .ok locals)
      | .raised e => (1, .error e)
      | .sleep locals => ((loop outcomes rest locals).1 + 1, (loop outcomes rest locals).2)

/-- `range(min(retries, 2) + 1)`. -/
def attempts : List Nat := List.range (min retries 2 + 1).toNat

end Loop

/-- What is made of a response whose head has arrived. -/
def answer {ω : Type} (head : Head) (content : Option ω) : Except Raised ω :=
  if head.status = 429 then .error (.gateway "RATE_LIMITED")
  else if 500 ≤ head.status then .error (.gateway "PROVIDER_UNAVAILABLE")
  else if 400 ≤ head.status then .error (.gateway "INVALID_ARGUMENT")
  else if !head.json then .error (.gateway "OUTPUT_INVALID")
  else
    match content with
    | some value => .ok value
    | none => .error (.gateway "OUTPUT_INVALID")

/-- `_invoke_provider` behind the loop. -/
def afterLoop {ω : Type} : Except Raised (Locals ω) → Except Raised ω
  | .error e => .error e
  | .ok locals =>
      match locals.head with
      | none => .error .assertion
      | some head => answer head locals.content

/-- The attempts of `_invoke_provider`, and what it returns or raises. -/
def invokeProvider {ω : Type} (provider : Provider) (outcomes : Nat → Outcome ω) :
    Nat × Except Raised ω :=
  let made := loop provider.retries outcomes (attempts provider.retries) ⟨none, none⟩
  (made.1, afterLoop made.2)

/-- The error code that `invoke_capability` answers with. -/
def Raised.code : Raised → String
  | .timeout => "TIMEOUT"
  | .httpError => "PROVIDER_UNAVAILABLE"
  | .gateway code => code
  | .assertion => "INTERNAL_ERROR"

/-! ## What is expected of the attempts -/

section Expected

variable {ω : Type}

def Body.isTimeout : Body ω → Bool
  | .timeout => true
  | _ => false

/-- The attempt may be repeated: it timed out, or the status says so. -/
def Outcome.retryable : Outcome ω → Bool
  | .timeout => true
  | .httpError => false
  | .response head body => retryStatus head.status || body.isTimeout

/-- The attempt times out, before a response or while one is read. -/
def Outcome.timesOut : Outcome ω → Bool
  | .timeout => true
  | .httpError => false
  | .response head body => !retryStatus head.status && body.isTimeout

/-- The classification of one attempt.  The rest of a response is not read if its status is
    one to be repeated. -/
def classify (retries : Int) (attempt : Nat) : Outcome ω → Except Raised ω
  | .timeout => .error .timeout
  | .httpError => .error .httpError
  | .response head body =>
      if retryStatus head.status && decide ((attempt : Int) < retries) then answer head none
      else
        match body with
        | .content value => answer head value
        | .tooLarge => .error (.gateway "OUTPUT_INVALID")
        | .timeout => .error .timeout
        | .httpError => .error .httpError

/-- What is expected of the attempts that are made and of what is reported. -/
structure Law (provider : Provider) (outcomes : Nat → Outcome ω) : Prop where
  one_le : 1 ≤ (invokeProvider provider outcomes).1
  le_three : (invokeProvider provider outcomes).1 ≤ 3
  once : provider.repeatable = false → (invokeProvider provider outcomes).1 = 1
  /-- Only an attempt that may be repeated is followed by another one. -/
  stops : ∀ i, i + 1 < (invokeProvider provider outcomes).1 → (outcomes i).retryable = true
  /-- The last attempt is reported. -/
  last : (invokeProvider provider outcomes).2 =
    classify provider.retries ((invokeProvider provider outcomes).1 - 1)
      (outcomes ((invokeProvider provider outcomes).1 - 1))
  asserted : (invokeProvider provider outcomes).2 ≠ .error .assertion

/-- Where the loop does what is expected: the operation is not to be repeated, or its number of
    retries is not negative, and if it is more than two, the third attempt is not one that
    times out. -/
def Provider.Fits (provider : Provider) (outcomes : Nat → Outcome ω) : Prop :=
  provider.repeatable = true →
    0 ≤ provider.maxRetries.getD 0 ∧
      ¬ (3 ≤ provider.maxRetries.getD 0 ∧ (outcomes 0).retryable = true ∧
        (outcomes 1).retryable = true ∧ (outcomes 2).timesOut = true)

end Expected

/-! ## The loop, attempt by attempt -/

section Runs

variable {ω : Type} {retries : Int} {outcomes : Nat → Outcome ω} {attempt : Nat}
  {locals : Locals ω} {o : Outcome ω}

/-- The loop goes on behind an attempt. -/
def Sleeps (retries : Int) (outcomes : Nat → Outcome ω) (attempt : Nat) : Prop :=
  (attempt : Int) < retries ∧ (outcomes attempt).retryable = true

theorem iteration_of_sleeps (hlt : (attempt : Int) < retries) (ho : o.retryable = true) :
    ∃ next, iteration retries attempt locals o = .sleep next ∧ next.content = locals.content ∧
      ∀ head body, o = .response head body → next.head = some head := by
  have htimedOut (l : Locals ω) : timedOut retries attempt l = .sleep l := by
    rw [timedOut, if_neg (Int.not_le.mpr hlt)]
  cases o with
  | timeout => exact ⟨locals, htimedOut locals, rfl, nofun⟩
  | httpError => cases ho
  | response head body =>
      have hhead : ∀ head' body', Outcome.response head body = .response head' body' →
          some head = some head' := by
        rintro head' body' h
        cases h
        rfl
      refine ⟨{ locals with head := some head }, ?_, rfl, hhead⟩
      simp only [iteration]
      split
      next => rfl
      next hstatus =>
        rw [decide_eq_true hlt, Bool.and_true, Bool.not_eq_true] at hstatus
        rw [Outcome.retryable, hstatus, Bool.false_or] at ho
        cases body with
        | timeout => exact htimedOut _
        | _ => cases ho

/-- An attempt behind which the loop does not go on is classified. -/
theorem iteration_of_not_sleeps (h : ¬ ((attempt : Int) < retries ∧ o.retryable = true)) :
    ∃ result, afterLoop result = classify retries attempt o ∧
      ((∃ e, result = .error e ∧ iteration retries attempt locals o = .raised e) ∨
        ∃ l, result = .ok l ∧ iteration retries attempt locals o = .leave l) := by
  have htimedOut (ho : o.retryable = true) (l : Locals ω) :
      timedOut retries attempt l = .raised .timeout := by
    rw [timedOut, if_pos (Int.not_lt.mp fun hlt => h ⟨hlt, ho⟩)]
  cases o with
  | timeout => exact ⟨.error .timeout, rfl, .inl ⟨_, rfl, htimedOut rfl locals⟩⟩
  | httpError => exact ⟨.error .httpError, rfl, .inl ⟨_, rfl, rfl⟩⟩
  | response head body =>
      have hread : ¬ (retryStatus head.status && decide ((attempt : Int) < retries)) = true := by
        intro hstatus
        rw [Bool.and_eq_true, decide_eq_true_eq] at hstatus
        refine h ⟨hstatus.2, ?_⟩
        rw [Outcome.retryable, hstatus.1, Bool.true_or]
      unfold iteration classify
      dsimp only
      rw [if_neg hread, if_neg hread]
      cases body with
      | content value => exact ⟨.ok ⟨some head, value⟩, rfl, .inr ⟨_, rfl, rfl⟩⟩
      | tooLarge => exact ⟨.error (.gateway "OUTPUT_INVALID"), rfl, .inl ⟨_, rfl, rfl⟩⟩
      | timeout =>
          exact ⟨.error .timeout, rfl, .inl ⟨_, rfl, htimedOut (Bool.or_true _) _⟩⟩
      | httpError => exact ⟨.error .httpError, rfl, .inl ⟨_, rfl, rfl⟩⟩

/-- **A run of the loop**: it ends with the first attempt behind which it does not go on, which
    is classified, or it goes on behind all of them. -/
theorem loop_cases (retries : Int) (outcomes : Nat → Outcome ω) (m k : Nat)
    (locals : Locals ω) :
    (∃ j < m, (loop retries outcomes (List.range' k m) locals).1 = j + 1 ∧
      (∀ i < j, Sleeps retries outcomes (k + i)) ∧ ¬ Sleeps retries outcomes (k + j) ∧
      afterLoop (loop retries outcomes (List.range' k m) locals).2 =
        classify retries (k + j) (outcomes (k + j))) ∨
    ((loop retries outcomes (List.range' k m) locals).1 = m ∧
      (∀ i < m, Sleeps retries outcomes (k + i)) ∧
      ∃ l, (loop retries outcomes (List.range' k m) locals).2 = .ok l ∧
        l.content = locals.content ∧ (m = 0 → l.head = locals.head) ∧
          ∀ head body, 0 < m → outcomes (k + (m - 1)) = .response head body →
            l.head = some head) := by
  induction m generalizing k locals with
  | zero =>
      refine .inr ⟨rfl, fun i hi => absurd hi (Nat.not_lt_zero i), locals, rfl, rfl,
        fun _ => rfl, ?_⟩
      intro _ _ hpos
      exact absurd hpos (Nat.lt_irrefl 0)
  | succ m ih =>
      rw [List.range'_succ]
      by_cases hsleeps : Sleeps retries outcomes k
      · have hnexts : ∃ next, iteration retries k locals (outcomes k) = .sleep next ∧
            next.content = locals.content ∧
              ∀ head body, outcomes k = .response head body → next.head = some head :=
          iteration_of_sleeps hsleeps.1 hsleeps.2
        obtain ⟨next, hnext, hcontent, hhead⟩ := hnexts
        have hshift : ∀ n, (∀ i < n, Sleeps retries outcomes (k + 1 + i)) →
            ∀ i < n + 1, Sleeps retries outcomes (k + i) := by
          intro n hn i hi
          cases i with
          | zero => exact hsleeps
          | succ i =>
              have hi' := hn i (Nat.lt_of_succ_lt_succ hi)
              rwa [Nat.add_assoc, Nat.add_comm 1 i] at hi'
        simp only [loop, hnext]
        obtain ⟨j, hj, hmade, hall, hlast, hresult⟩ | ⟨hmade, hall, l, hl, hlcontent, hzero, hlhead⟩ :=
          ih (k + 1) next
        · have hindex : k + 1 + j = k + (j + 1) := by omega
          rw [hindex] at hlast hresult
          exact .inl ⟨j + 1, Nat.succ_lt_succ hj, congrArg (· + 1) hmade, hshift j hall, hlast,
            hresult⟩
        · refine .inr ⟨congrArg (· + 1) hmade, hshift m hall, l, hl, hlcontent.trans hcontent,
            fun h => absurd h (Nat.succ_ne_zero m), ?_⟩
          intro head body _ hlast
          obtain rfl | hpos := Nat.eq_zero_or_pos m
          · rw [hzero rfl]
            exact hhead head body hlast
          · refine hlhead head body hpos ?_
            have hindex : k + 1 + (m - 1) = k + (m + 1 - 1) := by omega
            rw [hindex]
            exact hlast
      · have hresults : ∃ result, afterLoop result = classify retries k (outcomes k) ∧
            ((∃ e, result = .error e ∧ iteration retries k locals (outcomes k) = .raised e) ∨
              ∃ l, result = .ok l ∧ iteration retries k locals (outcomes k) = .leave l) :=
          iteration_of_not_sleeps hsleeps
        obtain ⟨result, hresult, ⟨e, rfl, hraised⟩ | ⟨l, rfl, hleave⟩⟩ := hresults
        · refine .inl ⟨0, Nat.succ_pos m, ?_, fun i hi => absurd hi (Nat.not_lt_zero i), hsleeps, ?_⟩
          · simp only [loop, hraised]
          · simp only [loop, hraised]
            exact hresult
        · refine .inl ⟨0, Nat.succ_pos m, ?_, fun i hi => absurd hi (Nat.not_lt_zero i), hsleeps, ?_⟩
          · simp only [loop, hleave]
          · simp only [loop, hleave]
            exact hresult

theorem answer_cases (head : Head) (content : Option ω) :
    (∃ code, answer head content = .error (.gateway code)) ∨
      ∃ value, answer head content = .ok value := by
  unfold answer
  split
  next => exact .inl ⟨_, rfl⟩
  next =>
    split
    next => exact .inl ⟨_, rfl⟩
    next =>
      split
      next => exact .inl ⟨_, rfl⟩
      next =>
        split
        next => exact .inl ⟨_, rfl⟩
        next =>
          cases content with
          | some value => exact .inr ⟨value, rfl⟩
          | none => exact .inl ⟨_, rfl⟩

theorem answer_ne (head : Head) (content : Option ω) {e : Raised}
    (he : ∀ code, e ≠ .gateway code) : answer head content ≠ .error e := by
  intro h
  obtain ⟨code, hcode⟩ | ⟨value, hvalue⟩ := answer_cases head content
  · exact he code (Except.error.inj (h.symm.trans hcode))
  · cases h.symm.trans hvalue

theorem classify_ne_assertion (attempt : Nat) (o : Outcome ω) :
    classify retries attempt o ≠ .error .assertion := by
  cases o with
  | response head body =>
      unfold classify
      dsimp only
      split
      next => exact answer_ne head none nofun
      next =>
        cases body with
        | content value => exact answer_ne head value nofun
        | _ => exact nofun
  | _ => exact nofun

theorem retryable_of_timesOut (h : o.timesOut = true) : o.retryable = true := by
  cases o with
  | timeout => rfl
  | httpError => cases h
  | response head body =>
      rw [Outcome.timesOut, Bool.and_eq_true] at h
      rw [Outcome.retryable, h.2, Bool.or_true]

theorem classify_of_timesOut (h : o.timesOut = true) : classify retries attempt o =
    .error .timeout := by
  cases o with
  | timeout => rfl
  | httpError => cases h
  | response head body =>
      rw [Outcome.timesOut, Bool.and_eq_true, Bool.not_eq_true'] at h
      unfold classify
      dsimp only
      rw [h.1, Bool.false_and, if_neg Bool.false_ne_true]
      cases body with
      | timeout => rfl
      | _ => cases h.2

/-- An attempt behind which the loop goes on and that does not time out has a response whose
    status alone is classified. -/
theorem response_of_sleeps (hlt : (attempt : Int) < retries) (ho : o.retryable = true)
    (htimesOut : ¬ o.timesOut = true) : ∃ head body, o = .response head body ∧
      classify retries attempt o = answer head none := by
  cases o with
  | timeout => exact absurd rfl htimesOut
  | httpError => cases ho
  | response head body =>
      refine ⟨head, body, rfl, ?_⟩
      have hstatus : retryStatus head.status = true := by
        rw [Outcome.retryable, Bool.or_eq_true] at ho
        by_contra hnot
        rw [Bool.not_eq_true] at hnot
        rw [Outcome.timesOut, hnot] at htimesOut
        exact htimesOut (ho.resolve_left (by rw [hnot]; exact Bool.false_ne_true))
      unfold classify
      dsimp only
      rw [hstatus, decide_eq_true hlt]
      rfl

end Runs

/-! ## The law -/

section Settled

variable {ω : Type} {provider : Provider} {outcomes : Nat → Outcome ω}

/-- The number of attempts, when it is not negative. -/
theorem attempts_eq (h : 0 ≤ provider.retries) :
    attempts provider.retries = List.range' 0 (min provider.retries.toNat 2 + 1) := by
  have hn : (min provider.retries 2 + 1).toNat = min provider.retries.toNat 2 + 1 := by omega
  rw [attempts, hn, List.range_eq_range']

/-- The loop stops at one of its attempts. -/
theorem law_of_stopped {n j : Nat} (hn : n ≤ 3) (hj : j < n)
    (hattempts : attempts provider.retries = List.range' 0 n)
    (hmade : (loop provider.retries outcomes (List.range' 0 n) ⟨none, none⟩).1 = j + 1)
    (hall : ∀ i < j, Sleeps provider.retries outcomes i)
    (hresult : afterLoop (loop provider.retries outcomes (List.range' 0 n) ⟨none, none⟩).2 =
      classify provider.retries j (outcomes j)) : Law provider outcomes := by
  have hcount : (invokeProvider provider outcomes).1 = j + 1 := by
    rw [invokeProvider, hattempts]
    exact hmade
  have hreport : (invokeProvider provider outcomes).2 =
      classify provider.retries j (outcomes j) := by
    rw [invokeProvider, hattempts]
    exact hresult
  refine ⟨?_, ?_, ?_, ?_, ?_, ?_⟩
  · omega
  · omega
  · intro honce
    have hzero : provider.retries = 0 := by
      rw [Provider.retries, honce]
      rfl
    have hlength := congrArg List.length hattempts
    rw [hzero, List.length_range'] at hlength
    have hone : 1 = n := hlength
    omega
  · intro i hi
    exact (hall i (by omega)).2
  · rw [hcount, hreport]
    rfl
  · rw [hreport]
    exact classify_ne_assertion j (outcomes j)

/-- The loop goes on behind all of its attempts. -/
theorem law_iff_of_exhausted {l : Locals ω} (h : 3 ≤ provider.retries)
    (hmade : (invokeProvider provider outcomes).1 = 3)
    (hall : ∀ i < 3, Sleeps provider.retries outcomes i)
    (hresult : (invokeProvider provider outcomes).2 = afterLoop (.ok l))
    (hcontent : l.content = none)
    (hhead : ∀ head body, outcomes 2 = .response head body → l.head = some head) :
    Law provider outcomes ↔ ¬ (outcomes 2).timesOut = true := by
  constructor
  · intro hlaw htimesOut
    have hlast := hlaw.last
    rw [hmade, hresult, classify_of_timesOut htimesOut] at hlast
    unfold afterLoop at hlast
    dsimp only at hlast
    split at hlast
    next => cases hlast
    next head _ => exact answer_ne head _ (fun _ h => by cases h) hlast
  · intro htimesOut
    obtain ⟨hlt, hretryable⟩ := hall 2 (by decide)
    obtain ⟨head, body, hresponse, hclassify⟩ := response_of_sleeps hlt hretryable htimesOut
    have hreport : (invokeProvider provider outcomes).2 =
        classify provider.retries 2 (outcomes 2) := by
      rw [hresult, hclassify, afterLoop, hhead head body hresponse, hcontent]
    refine ⟨by omega, by omega, ?_, ?_, ?_, ?_⟩
    · intro honce
      rw [Provider.retries, honce, if_neg Bool.false_ne_true] at h
      omega
    · intro i hi
      exact (hall i (by omega)).2
    · rw [hmade]
      exact hreport
    · rw [hreport]
      exact classify_ne_assertion 2 (outcomes 2)

/-- **When the retries of a REST call are right.** -/
theorem attempts_law_iff (provider : Provider) (outcomes : Nat → Outcome ω) :
    Law provider outcomes ↔ provider.Fits outcomes := by
  have hretries : provider.Fits outcomes ↔ 0 ≤ provider.retries ∧
      ¬ (3 ≤ provider.retries ∧ (outcomes 0).retryable = true ∧
        (outcomes 1).retryable = true ∧ (outcomes 2).timesOut = true) := by
    unfold Provider.Fits Provider.retries
    cases provider.repeatable with
    | true => simp
    | false => simp
  rw [hretries]
  by_cases hneg : 0 ≤ provider.retries
  · have hattempts := attempts_eq hneg
    obtain ⟨j, hj, hmade, hall, hlast, hresult⟩ | ⟨hmade, hall, l, hl, hcontent, -, hhead⟩ :=
      loop_cases provider.retries outcomes (min provider.retries.toNat 2 + 1) 0 ⟨none, none⟩
    · simp only [Nat.zero_add] at hall hlast hresult
      refine iff_of_true (law_of_stopped (by omega) hj hattempts hmade hall hresult) ⟨hneg, ?_⟩
      rintro ⟨hthree, hzero, hone, htwo⟩
      -- One of the three attempts is the one behind which the loop stops.
      have hstopped : (outcomes j).retryable = true := by
        have hj3 : j < 3 := by omega
        interval_cases j
        · exact hzero
        · exact hone
        · exact retryable_of_timesOut htwo
      exact hlast ⟨by omega, hstopped⟩
    · simp only [Nat.zero_add] at hall hhead
      have hlastSleeps := hall (min provider.retries.toNat 2) (by omega)
      have hthree : 3 ≤ provider.retries := by
        have hlt := hlastSleeps.1
        omega
      have hcount : min provider.retries.toNat 2 + 1 = 3 := by omega
      rw [hcount] at hmade hall hl hhead hattempts
      have hresult : (invokeProvider provider outcomes).2 = afterLoop (.ok l) := by
        rw [invokeProvider, hattempts, ← hl]
      have hmade' : (invokeProvider provider outcomes).1 = 3 := by
        rw [invokeProvider, hattempts]
        exact hmade
      rw [law_iff_of_exhausted hthree hmade' hall hresult hcontent fun head body h =>
        hhead head body (by decide) h]
      have hzero := (hall 0 (by decide)).2
      have hone := (hall 1 (by decide)).2
      constructor
      · intro h
        exact ⟨hneg, fun hbad => h hbad.2.2.2⟩
      · rintro ⟨-, h⟩ htwo
        exact h ⟨hthree, hzero, hone, htwo⟩
  · refine iff_of_false ?_ fun h => hneg h.1
    intro hlaw
    have hnone : attempts provider.retries = [] := by
      have hcount : (min provider.retries 2 + 1).toNat = 0 := by omega
      rw [attempts, hcount]
      rfl
    have hone := hlaw.one_le
    rw [invokeProvider, hnone] at hone
    exact Nat.not_succ_le_zero 0 hone

/-- Three retries, and a provider that never answers. -/
def threeRetries : Provider := ⟨some 3, "READ_ONLY", "SAFE_RETRY"⟩

/-- The timeout of the third attempt is reported as an internal error. -/
theorem third_timeout_lost :
    invokeProvider threeRetries (fun _ => Outcome.timeout (ω := Unit)) = (3, .error .assertion) ∧
      Raised.assertion.code = "INTERNAL_ERROR" ∧
      ¬ Law threeRetries (fun _ => Outcome.timeout (ω := Unit)) := by
  have hrun : invokeProvider threeRetries (fun _ => Outcome.timeout (ω := Unit)) =
      (3, .error .assertion) := rfl
  refine ⟨hrun, rfl, ?_⟩
  intro hlaw
  exact hlaw.asserted (congrArg Prod.snd hrun)

end Settled

end Retry
end Gateway
end HermesPlatform
