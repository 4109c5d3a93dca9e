/-
  HermesPlatform.Gateway.Revocation

  Revocation against renewal: `revoke_execution_capability_token` of the backend, and
  the calls of the gateway, which look the token up once (`_ensure_not_revoked`) and
  may renew it when they return (`_renewal`).

  A revocation is a record that Redis keeps for the lifetime of a token.  It outlives
  every token that exists by then, but not one that a call renews later; the law holds
  in the runs in which no renewal outlives the record.

  All services read one clock, in milliseconds, and have the same TTL.
-/

import HermesPlatform.Lib.Transition
import Mathlib.Logic.Function.Basic

namespace HermesPlatform
namespace Gateway

open Transition

/-! ## The system -/

/-- What the law depends on in a token; `exp` is in seconds. -/
structure CapabilityToken where
  jti : String
  exp : Nat
deriving DecidableEq, Repr

/-- Where a call of `resolve_capabilities` or `invoke_capability` stands. -/
inductive CallStage where
  | verified
  | checked
  | renewing
  | returned
deriving DecidableEq, Repr

structure GatewayCall where
  token : CapabilityToken
  stage : CallStage
deriving DecidableEq, Repr

/-- The settings: the lifetime of a token, and how long before its end it is renewed,
    in seconds. -/
structure TokenSettings where
  ttlSeconds : Nat
  renewBeforeSeconds : Nat

/-- The clock in milliseconds, the tokens in circulation, the calls, and when the
    revocation record of a token id expires; `none` where there never was one. -/
structure TokenState where
  clock : Nat
  tokens : List CapabilityToken
  calls : List GatewayCall
  revoked : String → Option Nat

/-- `int(time.time())`. -/
def TokenState.seconds (st : TokenState) : Nat := st.clock / 1000

/-- `redis_client.exists(f"hermes:capability-token:revoked:{jti}")`. -/
def TokenState.recorded (st : TokenState) (jti : String) : Bool :=
  match st.revoked jti with
  | none => false
  | some expiry => st.clock < expiry

inductive TokenAction where
  | tick (milliseconds : Nat)
  | issue (jti : String)
  /-- A call starts with a token that has not expired. -/
  | verify (token : CapabilityToken)
  | check (call : Nat)
  /-- The call comes to `_renewal`. -/
  | close (call : Nat)
  /-- `renew_capability_token` reads the clock. -/
  | sign (call : Nat)
  | revoke (jti : String)
deriving DecidableEq, Repr

def TokenState.withStage (st : TokenState) (i : Nat) (call : GatewayCall) (stage : CallStage) :
    TokenState :=
  { st with calls := st.calls.set i { call with stage := stage } }

def TokenState.addToken (st : TokenState) (settings : TokenSettings) (jti : String) : TokenState :=
  { st with tokens := st.tokens ++ [⟨jti, st.seconds + settings.ttlSeconds⟩] }

/-- `client.set(.., ex=ttl)`. -/
def TokenState.record (st : TokenState) (settings : TokenSettings) (jti : String) : TokenState :=
  { st with revoked := Function.update st.revoked jti (some (st.clock + settings.ttlSeconds * 1000)) }

def tokenStep (settings : TokenSettings) (st : TokenState) : TokenAction → Option TokenState
  | .tick milliseconds => some { st with clock := st.clock + milliseconds }
  | .issue jti =>
      -- `uuid4` gives an identifier that is not in use.
      if (∃ token ∈ st.tokens, token.jti = jti) ∨ st.revoked jti ≠ none then none
      else some (st.addToken settings jti)
  | .verify token =>
      if token ∈ st.tokens ∧ st.seconds < token.exp then
        some { st with calls := st.calls ++ [⟨token, .verified⟩] }
      else none
  | .check i =>
      match st.calls[i]? with
      | some call =>
          if call.stage ≠ .verified then none
          else some (st.withStage i call (if st.recorded call.token.jti then .returned else .checked))
      | none => none
  | .close i =>
      match st.calls[i]? with
      | some call =>
          if call.stage ≠ .checked then none
          else
            some (st.withStage i call
              (if st.seconds + settings.renewBeforeSeconds ≤ call.token.exp then .returned else .renewing))
      | none => none
  | .sign i =>
      match st.calls[i]? with
      | some call =>
          if call.stage ≠ .renewing then none
          else some ((st.withStage i call .returned).addToken settings call.token.jti)
      | none => none
  | .revoke jti =>
      if ∃ token ∈ st.tokens, token.jti = jti then some (st.record settings jti) else none

/-- Nothing has been issued. -/
def TokenState.Fresh (st : TokenState) : Prop :=
  st.tokens = [] ∧ st.calls = [] ∧ ∀ jti, st.revoked jti = none

def tokenSystem (settings : TokenSettings) : System TokenState TokenAction where
  init := TokenState.Fresh
  step := tokenStep settings

/-! ## The law -/

/-- The verifier and the revocation check let the token pass. -/
def TokenState.accepts (st : TokenState) (token : CapabilityToken) : Bool :=
  st.seconds < token.exp && !st.recorded token.jti

/-- No token is accepted whose id has been revoked. -/
def RevocationEffective (st : TokenState) : Prop :=
  ∀ token ∈ st.tokens, st.revoked token.jti ≠ none → st.accepts token = false

/-- The token that a call signs now expires before the revocation record of its id. -/
def RenewalCovered (settings : TokenSettings) (st : TokenState) : TokenAction → Prop
  | .sign i =>
      ∀ call ∈ st.calls[i]?, ∀ expiry ∈ st.revoked call.token.jti,
        (st.seconds + settings.ttlSeconds) * 1000 ≤ expiry
  | _ => True

instance (settings : TokenSettings) (st : TokenState) (action : TokenAction) :
    Decidable (RenewalCovered settings st action) :=
  match action with
  | .sign i => inferInstanceAs (Decidable (∀ call ∈ st.calls[i]?, ∀ expiry ∈ st.revoked call.token.jti,
      (st.seconds + settings.ttlSeconds) * 1000 ≤ expiry))
  | .tick _ | .issue _ | .verify _ | .check _ | .close _ | .revoke _ => isTrue trivial

/-! ## Steps -/

variable {settings : TokenSettings} {st st' : TokenState}

/-- No token lives longer than one issued now, and none outlives the revocation record
    of its id. -/
structure TokenInv (settings : TokenSettings) (st : TokenState) : Prop where
  lifetime : ∀ token ∈ st.tokens, token.exp ≤ st.seconds + settings.ttlSeconds
  outlived : ∀ token ∈ st.tokens, ∀ expiry ∈ st.revoked token.jti, token.exp * 1000 ≤ expiry

theorem seconds_le_clock (st : TokenState) : st.seconds * 1000 ≤ st.clock := by
  have h := Nat.div_mul_le_self st.clock 1000
  exact h

theorem clock_lt_of_seconds_lt {n : Nat} (h : st.seconds < n) : st.clock < n * 1000 := by
  rw [TokenState.seconds] at h
  omega

/-- The invariant looks at the clock, the tokens and the records only. -/
theorem TokenInv.congr (hi : TokenInv settings st) (hclock : st'.clock = st.clock)
    (htokens : st'.tokens = st.tokens) (hrevoked : st'.revoked = st.revoked) :
    TokenInv settings st' := by
  have hseconds : st'.seconds = st.seconds := by rw [TokenState.seconds, hclock]; rfl
  constructor
  · rw [htokens, hseconds]
    exact hi.lifetime
  · rw [htokens, hrevoked]
    exact hi.outlived

theorem TokenInv.tick (hi : TokenInv settings st) (milliseconds : Nat) :
    TokenInv settings { st with clock := st.clock + milliseconds } := by
  constructor
  · intro token htoken
    have hlife := hi.lifetime token htoken
    have hlater : st.clock / 1000 ≤ (st.clock + milliseconds) / 1000 :=
      Nat.div_le_div_right (Nat.le_add_right _ _)
    simp only [TokenState.seconds] at hlife ⊢
    omega
  · exact hi.outlived

/-- A new token must not outlive a revocation record of its id that is there already. -/
theorem TokenInv.addToken (hi : TokenInv settings st) {jti : String}
    (hcovered : ∀ expiry ∈ st.revoked jti, (st.seconds + settings.ttlSeconds) * 1000 ≤ expiry) :
    TokenInv settings (st.addToken settings jti) := by
  constructor
  · intro token htoken
    obtain htoken | htoken := List.mem_append.1 htoken
    · exact hi.lifetime token htoken
    · rw [List.mem_singleton.1 htoken]
      exact Nat.le_refl _
  · intro token htoken
    obtain htoken | htoken := List.mem_append.1 htoken
    · exact hi.outlived token htoken
    · rw [List.mem_singleton.1 htoken]
      exact hcovered

/-- The record is kept for a whole lifetime, so it outlives the tokens there are. -/
theorem TokenInv.record (hi : TokenInv settings st) (jti : String) :
    TokenInv settings (st.record settings jti) := by
  refine ⟨hi.lifetime, ?_⟩
  intro token htoken expiry hexpiry
  simp only [TokenState.record, Option.mem_def] at hexpiry htoken
  by_cases hjti : token.jti = jti
  · rw [hjti, Function.update_self, Option.some.injEq] at hexpiry
    calc
      token.exp * 1000 ≤ (st.seconds + settings.ttlSeconds) * 1000 :=
        Nat.mul_le_mul_right 1000 (hi.lifetime token htoken)
      _ = st.seconds * 1000 + settings.ttlSeconds * 1000 := Nat.add_mul _ _ _
      _ ≤ st.clock + settings.ttlSeconds * 1000 := Nat.add_le_add_right (seconds_le_clock st) _
      _ = expiry := hexpiry
  · rw [Function.update_of_ne hjti] at hexpiry
    exact hi.outlived token htoken expiry hexpiry

/-- **Step lemma.** -/
theorem TokenInv.step {action : TokenAction} (hi : TokenInv settings st)
    (hok : RenewalCovered settings st action) (h : tokenStep settings st action = some st') :
    TokenInv settings st' := by
  cases action with
  | tick milliseconds =>
      simp only [tokenStep, Option.some.injEq] at h
      subst h
      exact hi.tick milliseconds
  | issue jti =>
      simp only [tokenStep, ite_eq_iff, reduceCtorEq, and_false, false_or, Option.some.injEq] at h
      obtain ⟨hfresh, rfl⟩ := h
      rw [not_or, not_not] at hfresh
      refine hi.addToken ?_
      intro expiry hexpiry
      rw [hfresh.2] at hexpiry
      cases hexpiry
  | verify token =>
      simp only [tokenStep, Option.ite_none_right_eq_some, Option.some.injEq] at h
      obtain ⟨_, rfl⟩ := h
      exact hi.congr rfl rfl rfl
  | check i =>
      simp only [tokenStep] at h
      split at h
      · simp only [Option.ite_none_left_eq_some, Option.some.injEq] at h
        obtain ⟨_, rfl⟩ := h
        exact hi.congr rfl rfl rfl
      · cases h
  | close i =>
      simp only [tokenStep] at h
      split at h
      · simp only [Option.ite_none_left_eq_some, Option.some.injEq] at h
        obtain ⟨_, rfl⟩ := h
        exact hi.congr rfl rfl rfl
      · cases h
  | sign i =>
      simp only [tokenStep] at h
      split at h
      next call hcall =>
        simp only [Option.ite_none_left_eq_some, Option.some.injEq] at h
        obtain ⟨_, rfl⟩ := h
        have hi' : TokenInv settings (st.withStage i call .returned) := hi.congr rfl rfl rfl
        exact hi'.addToken (hok call hcall)
      next => cases h
  | revoke jti =>
      simp only [tokenStep, Option.ite_none_right_eq_some, Option.some.injEq] at h
      obtain ⟨_, rfl⟩ := h
      exact hi.record jti

theorem TokenInv.fresh (h : st.Fresh) : TokenInv settings st := by
  obtain ⟨htokens, _, _⟩ := h
  constructor <;> simp [htokens]

theorem TokenInv.effective (hi : TokenInv settings st) : RevocationEffective st := by
  intro token htoken hrevoked
  obtain ⟨expiry, hexpiry⟩ := Option.ne_none_iff_exists'.1 hrevoked
  have houtlived := hi.outlived token htoken expiry hexpiry
  by_cases hlive : st.seconds < token.exp
  · -- A token that has not expired is still on record.
    have hclock := clock_lt_of_seconds_lt hlive
    have hrecorded : st.clock < expiry := by omega
    simp [TokenState.accepts, TokenState.recorded, hexpiry, hrecorded]
  · simp [TokenState.accepts, hlive]

/-! ## Results -/

/-- In a run whose renewals are all covered by the revocation records, no token is
    accepted whose id has been revoked, at any time. -/
theorem revocation_effective
    (h : (tokenSystem settings).Reachable (RenewalCovered settings) st) :
    RevocationEffective st := by
  have hi : TokenInv settings st :=
    h.invariant (TokenInv settings) (fun _ hfresh => TokenInv.fresh hfresh)
      (fun _ _ _ hi hok hstep => hi.step hok hstep)
  exact hi.effective

/-- A renewal that is not covered defeats the revocation: once the record has expired,
    the renewed token is accepted. -/
theorem uncovered_renewal_accepted {i : Nat} (httl : 0 < settings.ttlSeconds)
    (hbad : ¬ RenewalCovered settings st (.sign i)) (h : tokenStep settings st (.sign i) = some st') :
    ∃ milliseconds later, tokenStep settings st' (.tick milliseconds) = some later ∧
      ¬ RevocationEffective later := by
  simp only [RenewalCovered, not_forall, Nat.not_le] at hbad
  obtain ⟨call, hcall, expiry, hexpiry, hlate⟩ := hbad
  rw [Option.mem_def] at hcall hexpiry
  simp only [tokenStep, hcall, Option.ite_none_left_eq_some, Option.some.injEq] at h
  obtain ⟨_, rfl⟩ := h
  -- Wait until the record is gone.
  refine ⟨expiry - st.clock, _, rfl, ?_⟩
  intro heffective
  have hrenewed := heffective ⟨call.token.jti, st.seconds + settings.ttlSeconds⟩
    (List.mem_append_right _ (List.mem_singleton_self _))
    (Option.ne_none_iff_exists'.2 ⟨expiry, hexpiry⟩)
  have hgone : ¬ st.clock + (expiry - st.clock) < expiry := by omega
  have hlive : (st.clock + (expiry - st.clock)) / 1000 < st.clock / 1000 + settings.ttlSeconds := by
    simp only [TokenState.seconds] at hlate
    omega
  simp [TokenState.accepts, TokenState.recorded, TokenState.seconds, TokenState.addToken,
    TokenState.withStage, hexpiry, hgone, hlive] at hrenewed

/-! ## Runs -/

/-- Ten minutes, renewed in the last two. -/
def defaultTokens : TokenSettings := ⟨600, 120⟩

def noTokens : TokenState := ⟨0, [], [], fun _ => none⟩

theorem noTokens_fresh : noTokens.Fresh := ⟨rfl, rfl, fun _ => rfl⟩

/-- A call is in flight when its token is revoked, and renews it a second later. -/
def inFlightRenewal : List TokenAction :=
  [.issue "jti-1", .tick 500000, .verify ⟨"jti-1", 600⟩, .check 0, .revoke "jti-1",
    .tick 1000, .close 0, .sign 0, .tick 599000]

/-- The record is kept until second 1100, the renewed token until second 1101. -/
theorem renewed_token_outlives_revocation :
    ∃ st, (tokenSystem defaultTokens).Reachable System.anyStep st ∧
      st.revoked "jti-1" ≠ none ∧ (⟨"jti-1", 1101⟩ : CapabilityToken) ∈ st.tokens ∧
      st.accepts ⟨"jti-1", 1101⟩ = true :=
  ⟨_, ⟨noTokens, noTokens_fresh, System.path_of_exec inFlightRenewal rfl⟩, by decide, by decide, by decide⟩

/-- The same call, which signs the renewed token within the second of the revocation. -/
def promptRenewal : List TokenAction :=
  [.issue "jti-1", .tick 500000, .verify ⟨"jti-1", 600⟩, .check 0, .revoke "jti-1",
    .tick 999, .close 0, .sign 0, .tick 599000]

theorem revocation_effective_prompt :
    ∃ st, (tokenSystem defaultTokens).Reachable (RenewalCovered defaultTokens) st ∧
      (⟨"jti-1", 1100⟩ : CapabilityToken) ∈ st.tokens ∧ RevocationEffective st := by
  have hrun : (tokenSystem defaultTokens).Reachable (RenewalCovered defaultTokens) _ :=
    ⟨noTokens, noTokens_fresh, System.path_of_allowed promptRenewal (by decide) rfl⟩
  exact ⟨_, hrun, by decide, revocation_effective hrun⟩

end Gateway
end HermesPlatform
