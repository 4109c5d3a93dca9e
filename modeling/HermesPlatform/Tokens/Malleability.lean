/-
  HermesPlatform.Tokens.Malleability

  No accepted token has a second spelling: the unused bits behind the last byte,
  padding, the standard alphabet and ignored characters are all refused, since the
  verifiers compare every segment with the encoding of what they have read.
-/

import HermesPlatform.Tokens.Agreement

namespace HermesPlatform
namespace Tokens

open Base64 Json Python

variable {env : TokenEnv} {key : String}

/-- The signed payload of a token, as the decoder of a verifier reads it, strict or not. -/
def payloadBytes (strict : Bool) (token : String) : Option (List UInt8) :=
  (splitToken token).bind fun segments => b64decode strict (segments.2.1 ++ padding segments.2.1)

theorem payloadBytes_assemble (strict : Bool) (payload : List UInt8) :
    payloadBytes strict (assemble env key payload) = some payload := by
  rw [payloadBytes, splitToken_assemble, Option.bind_some, base64url_append_padding]
  exact b64decode_urlsafeB64encode strict payload

/-- **Non-malleability.** Two tokens that a verifier accepts and that decode to the same
    payload are the same string. -/
theorem tokens_nonmalleable {verify : Verifier} (hverify : verify ∈ verifiers) {token token' : String}
    {now now' : Int} {claims claims' : Dict String Json} (h : verify env key token now = .ok claims)
    (h' : verify env key token' now' = .ok claims') {strict : Bool}
    (hpayload : payloadBytes strict token = payloadBytes strict token') : token = token' := by
  obtain ⟨payload, rfl⟩ := accepted_assembled hverify h
  obtain ⟨payload', rfl⟩ := accepted_assembled hverify h'
  rw [payloadBytes_assemble, payloadBytes_assemble, Option.some.injEq] at hpayload
  rw [hpayload]

/-- A renewal in the second of the issue leaves the token as it was. -/
theorem sampleToken_unique :
    ∃ claims, verifyGatewayToken sampleEnv sampleKey sampleToken 1000 = .ok claims ∧
      renewCapabilityToken sampleEnv sampleKey claims 600 1000 1000 = sampleToken := by
  have hgateway : verifyGatewayToken ∈ verifiers := by simp [verifiers]
  obtain ⟨claims, haccepted, -⟩ :=
    (verify_sign _ _ sample_identified sampleJti_ne 1000 1600 hgateway 1000).1 (by decide)
  have hissued : TokenOf sampleEnv sampleKey sample "j1" sampleToken 1000 1600 := .issued 600 1000
  have hrenewed := tokenOf_eq_sign sample_identified sampleJti_ne
    (.renewed hissued haccepted 600 1000 1000)
  have haccepted' : verifyGatewayToken sampleEnv sampleKey
      (renewCapabilityToken sampleEnv sampleKey claims 600 1000 1000) 1000 = .ok claims := by
    rw [hrenewed]
    exact haccepted
  have hpayload : payloadBytes true (renewCapabilityToken sampleEnv sampleKey claims 600 1000 1000) =
      payloadBytes true sampleToken := by
    rw [hrenewed]
    rfl
  exact ⟨claims, haccepted, tokens_nonmalleable hgateway haccepted' haccepted hpayload⟩

end Tokens
end HermesPlatform
