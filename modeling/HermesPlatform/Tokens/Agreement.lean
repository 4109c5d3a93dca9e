/-
  HermesPlatform.Tokens.Agreement

  The three services read a capability token alike: what the backend issues, and
  what the gateway makes of it in any number of renewals, is accepted by every
  verifier with the claims that were issued until it expires, and by none from then
  on (`token_agreement`).
-/

import HermesPlatform.Tokens.CapabilityToken

namespace HermesPlatform
namespace Tokens

open Python Base64 Json

variable {env : TokenEnv} {key : String}

/-! ## Claims -/

theorem claims_plain (a : IssueArguments) (iat exp : Int) (jti : String) :
    Plain (.object (a.claims iat exp jti).entries) := by
  refine .object (a.claims iat exp jti).nodup ?_
  intro m hm
  have hpair := Dict.mem_of_mem_ofPairs hm
  simp only [List.mem_cons, List.not_mem_nil, or_false] at hpair
  rcases hpair with rfl | rfl | rfl | rfl | rfl | rfl | rfl | rfl | rfl | rfl
  · exact .string _
  · exact .string _
  · exact .string _
  · exact .string _
  · exact .string _
  · refine .array ?_
    intro v hv
    obtain ⟨s, -, rfl⟩ := List.mem_map.mp hv
    exact .string s
  · exact .string _
  · exact .int _
  · exact .int _
  · exact .string _

/-- A token depends on what its claims are, not on their order. -/
theorem sign_congr {d e : Dict String Json} (h : ∀ k, d.get? k = e.get? k) :
    sign env key d = sign env key e := by
  rw [sign, sign, dumpsAscii, dumpsAscii, sortKeys_perm d.nodup (Dict.perm_iff_get?.mpr h)]

/-- A renewal changes the two times. -/
theorem get?_renewed {d : Dict String Json} {a : IssueArguments} {iat exp : Int} {jti : String}
    (h : ∀ k, d.get? k = (a.claims iat exp jti).get? k) (iat' exp' : Int) (k : String) :
    ((d.set "iat" (.int iat')).set "exp" (.int exp')).get? k = (a.claims iat' exp' jti).get? k := by
  rw [Dict.get?_set, Dict.get?_set, h, IssueArguments.claims, IssueArguments.claims,
    Dict.get?_ofPairs, Dict.get?_ofPairs]
  simp only [Dict.lastValue_cons]
  by_cases hexp : k = "exp"
  · subst hexp
    rfl
  · by_cases hiat : k = "iat"
    · subst hiat
      rfl
    · have hexp' : "exp" ≠ k := fun heq => hexp heq.symm
      have hiat' : "iat" ≠ k := fun heq => hiat heq.symm
      simp only [if_neg hexp, if_neg hiat, if_neg hexp', if_neg hiat']

theorem sortKeys_claim {a : IssueArguments} {iat exp : Int} {jti : String} :
    ∀ m ∈ (a.claims iat exp jti).entries, sortKeys m.2 = m.2 := by
  have hstrings : ∀ names : List String, sortItems (names.map .string) = names.map .string := by
    intro names
    induction names with
    | nil => rfl
    | cons name names ih => rw [List.map_cons, sortItems, ih]; rfl
  intro m hm
  have hpair := Dict.mem_of_mem_ofPairs hm
  simp only [List.mem_cons, List.not_mem_nil, or_false] at hpair
  rcases hpair with rfl | rfl | rfl | rfl | rfl | rfl | rfl | rfl | rfl | rfl
  case inr.inr.inr.inr.inr.inl => exact congrArg Json.array (hstrings _)
  all_goals rfl

variable (env) in
/-- The claims are read back from the payload. -/
theorem loads_claims (a : IssueArguments) (iat exp : Int) (jti : String) :
    ∃ members,
      loads env.decoders (asciiBytes (dumpsAscii (.object (a.claims iat exp jti).entries))) =
        some (.object members) ∧
      ∀ k, (Dict.ofPairs members).get? k = (a.claims iat exp jti).get? k := by
  have hsorted : sortMembers (a.claims iat exp jti).entries = (a.claims iat exp jti).entries := by
    rw [sortMembers_eq_map]
    refine (List.map_congr_left ?_).trans (List.map_id _)
    intro m hm
    rw [sortKeys_claim m hm]
    rfl
  have hperm := sortByKey_perm (a.claims iat exp jti).entries
  have hnodup : ((sortByKey (a.claims iat exp jti).entries).map Prod.fst).Nodup :=
    (hperm.map Prod.fst).nodup_iff.mpr (a.claims iat exp jti).nodup
  refine ⟨sortByKey (a.claims iat exp jti).entries, ?_, ?_⟩
  · rw [loads_dumpsAscii (claims_plain a iat exp jti), sortKeys, hsorted]
  · rw [← Dict.perm_iff_get?, Dict.entries_ofPairs hnodup]
    exact hperm

/-- The identifiers of the arguments are not empty. -/
def IssueArguments.Identified (a : IssueArguments) : Prop :=
  a.executionId ≠ "" ∧ a.agentId ≠ "" ∧ a.agentVersionId ≠ "" ∧ a.resolutionDigest ≠ ""

section Payload

variable {a : IssueArguments} {iat exp : Int} {jti : String} {claims : Dict String Json}
  (hclaims : ∀ k, claims.get? k = (a.claims iat exp jti).get? k)
include hclaims

theorem expired_claims (now : Int) : expired claims now = decide (exp ≤ now) := by
  rw [expired, hclaims]
  rfl

theorem hasKind_claims : requiredClaims.any (fun r => !hasKind claims r.1 r.2) = false := by
  simp only [requiredClaims, List.any_cons, List.any_nil, hasKind, hclaims, IssueArguments.claims,
    Dict.get?_ofPairs]
  rfl

theorem bindingsValid_claims : bindingsValid claims = true := by
  have hlookup : (a.claims iat exp jti).get? "allowed_bindings" =
      some (.array ((a.allowedBindings.dedup.insertionSort (· ≤ ·)).map .string)) := by
    rw [IssueArguments.claims, Dict.get?_ofPairs]
    rfl
  rw [bindingsValid, hclaims, hlookup]
  dsimp only
  rw [List.all_map, List.all_eq_true]
  intro s _
  rfl

theorem hasText_claims (ha : a.Identified) (hjti : jti ≠ "") :
    identifierFields.any (fun field => !hasText claims field) = false := by
  obtain ⟨hexecution, hagent, hversion, hdigest⟩ := ha
  have hlookup : (a.claims iat exp jti).get? "execution_id" = some (.string a.executionId) ∧
      (a.claims iat exp jti).get? "agent_id" = some (.string a.agentId) ∧
      (a.claims iat exp jti).get? "agent_version_id" = some (.string a.agentVersionId) ∧
      (a.claims iat exp jti).get? "resolution_digest" = some (.string a.resolutionDigest) ∧
      (a.claims iat exp jti).get? "jti" = some (.string jti) := by
    simp only [IssueArguments.claims, Dict.get?_ofPairs]
    exact ⟨rfl, rfl, rfl, rfl, rfl⟩
  simp only [identifierFields, List.any_cons, List.any_nil, hasText, hclaims, hlookup, hexecution,
    hagent, hversion, hdigest, hjti, ne_eq, not_false_eq_true, decide_true, Bool.not_true,
    Bool.or_self]

end Payload

/-! ## Renewals -/

/-- A token that was issued, and its renewals by the gateway at whatever times it
    accepts them; the clock is read twice for each. -/
inductive TokenOf (env : TokenEnv) (key : String) (a : IssueArguments) (jti : String) :
    String → Int → Int → Prop where
  | issued (ttlSeconds now : Int) :
      TokenOf env key a jti (issueExecutionCapabilityToken env key a ttlSeconds now jti) now
        (now + ttlSeconds)
  | renewed {token : String} {iat exp now : Int} {claims : Dict String Json}
      (old : TokenOf env key a jti token iat exp)
      (accepted : verifyGatewayToken env key token now = .ok claims)
      (ttlSeconds renewal later : Int) :
      TokenOf env key a jti (renewCapabilityToken env key claims ttlSeconds renewal later) renewal
        (later + ttlSeconds)

variable (env key) in
/-- What the verifiers say of a token with these claims. -/
theorem verify_sign {a : IssueArguments} (ha : a.Identified) {jti : String} (hjti : jti ≠ "")
    (iat exp : Int) {verify : Verifier} (hverify : verify ∈ verifiers) (now : Int) :
    (now < exp → ∃ claims, verify env key (sign env key (a.claims iat exp jti)) now = .ok claims ∧
      ∀ k, claims.get? k = (a.claims iat exp jti).get? k) ∧
    (exp ≤ now → ∃ e, verify env key (sign env key (a.claims iat exp jti)) now = .error e) := by
  obtain ⟨members, hloads, hclaims⟩ := loads_claims env a iat exp jti
  have hexpired := expired_claims hclaims now
  have hstrict : ∀ complaints,
      (now < exp → verifyToken complaints env key (sign env key (a.claims iat exp jti)) now =
        .ok (Dict.ofPairs members)) ∧
      (exp ≤ now → ∃ e, verifyToken complaints env key (sign env key (a.claims iat exp jti)) now =
        .error e) := by
    intro complaints
    rw [sign, verifyToken_assemble, hloads]
    dsimp only [capabilityClaims]
    rw [hexpired, hasText_claims hclaims ha hjti, bindingsValid_claims hclaims]
    refine ⟨?_, ?_⟩
    · intro hnow
      rw [decide_eq_false (by omega)]
      rfl
    · intro hnow
      rw [decide_eq_true hnow]
      exact ⟨_, rfl⟩
  simp only [verifiers, List.mem_cons, List.not_mem_nil, or_false] at hverify
  rcases hverify with rfl | rfl | rfl
  · rw [sign, verifyExecution_assemble, hloads]
    dsimp only [executionClaims]
    rw [hexpired, hasKind_claims hclaims]
    refine ⟨?_, ?_⟩
    · intro hnow
      rw [decide_eq_false (by omega)]
      exact ⟨_, rfl, hclaims⟩
    · intro hnow
      rw [decide_eq_true hnow]
      exact ⟨_, rfl⟩
  · exact ⟨fun hnow => ⟨_, (hstrict gatewayComplaints).1 hnow, hclaims⟩,
      (hstrict gatewayComplaints).2⟩
  · exact ⟨fun hnow => ⟨_, (hstrict postgresComplaints).1 hnow, hclaims⟩,
      (hstrict postgresComplaints).2⟩

/-- A renewed token is the one that would have been issued with its times. -/
theorem tokenOf_eq_sign {a : IssueArguments} (ha : a.Identified) {jti : String} (hjti : jti ≠ "")
    {token : String} {iat exp : Int} (h : TokenOf env key a jti token iat exp) :
    token = sign env key (a.claims iat exp jti) := by
  induction h with
  | issued ttlSeconds now => rfl
  | @renewed token iat exp now claims old accepted ttlSeconds renewal later ih =>
      have hgateway : verifyGatewayToken ∈ verifiers := by simp [verifiers]
      obtain ⟨haccepts, hrejects⟩ := verify_sign env key ha hjti iat exp hgateway now
      rw [ih] at accepted
      rcases lt_or_ge now exp with hnow | hnow
      · obtain ⟨claims', hclaims', hsame⟩ := haccepts hnow
        rw [accepted] at hclaims'
        obtain rfl := Except.ok.inj hclaims'
        exact sign_congr (get?_renewed hsame renewal (later + ttlSeconds))
      · obtain ⟨e, he⟩ := hrejects hnow
        rw [accepted] at he
        cases he

/-- **Agreement.** Every verifier accepts an issued token and each of its renewals until it
    expires, with the claims that were issued and the times of the token, and rejects it
    from then on. -/
theorem token_agreement {a : IssueArguments} (ha : a.Identified) {jti : String} (hjti : jti ≠ "")
    {token : String} {iat exp : Int} (h : TokenOf env key a jti token iat exp) {verify : Verifier}
    (hverify : verify ∈ verifiers) (now : Int) :
    (now < exp → ∃ claims, verify env key token now = .ok claims ∧
      ∀ k, claims.get? k = (a.claims iat exp jti).get? k) ∧
    (exp ≤ now → ∃ e, verify env key token now = .error e) := by
  rw [tokenOf_eq_sign ha hjti h]
  exact verify_sign env key ha hjti iat exp hverify now

/-! ## A token and its renewal -/

def sample : IssueArguments := ⟨"e1", "a1", "v1", "hermes", ["b2", "b1"], "sha256:0f"⟩

def sampleKey : String := "test-signing-key-that-is-at-least-32-chars"

/-- The digest of the message of the token that is issued, and of the renewed one. -/
def sampleHmac (_key : String) (message : List UInt8) : List UInt8 :=
  let payload := asciiBytes (dumpsAscii (.object (sample.claims 1000 1600 "j1").entries))
  if message = asciiBytes (signedText capabilityKind (base64url payload)) then
    [124, 72, 74, 247, 179, 175, 144, 39, 198, 181, 171, 6, 82, 23, 185, 9, 71, 102, 156, 85, 230, 159,
      170, 103, 204, 192, 119, 22, 193, 180, 30, 172]
  else
    [181, 59, 210, 180, 68, 185, 2, 79, 181, 74, 123, 97, 60, 8, 199, 109, 172, 88, 97, 21, 190, 99, 3,
      49, 153, 181, 159, 7, 77, 134, 109, 98]

/-- No text is read that is not ASCII, and no float. -/
def sampleEnv : TokenEnv :=
  ⟨sampleHmac, ⟨fun _ => none, fun _ => ⟨"0.0".toList, by decide, by decide⟩⟩⟩

def sampleToken : String := issueExecutionCapabilityToken sampleEnv sampleKey sample 600 1000 "j1"

theorem sample_identified : sample.Identified := by
  refine ⟨?_, ?_, ?_, ?_⟩ <;> decide

theorem sampleJti_ne : "j1" ≠ "" := by decide

/-- The token expires at 1600, its renewal at 2100. -/
theorem sampleToken_renewed :
    ∃ token, TokenOf sampleEnv sampleKey sample "j1" token 1500 2100 ∧
      (∃ claims, verifyPostgresToken sampleEnv sampleKey token 2099 = .ok claims ∧
        claims.get? "jti" = some (.string "j1")) ∧
      ∃ e, verifyPostgresToken sampleEnv sampleKey token 2100 = .error e := by
  have hgateway : verifyGatewayToken ∈ verifiers := by simp [verifiers]
  have hpostgres : verifyPostgresToken ∈ verifiers := by simp [verifiers]
  have hissued : TokenOf sampleEnv sampleKey sample "j1" sampleToken 1000 1600 := .issued 600 1000
  obtain ⟨claims, haccepted, -⟩ :=
    (verify_sign _ _ sample_identified sampleJti_ne 1000 1600 hgateway 1500).1 (by decide)
  have hrenewed := TokenOf.renewed hissued haccepted 600 1500 1500
  have hbefore := (token_agreement sample_identified sampleJti_ne hrenewed hpostgres 2099).1
    (by decide)
  have hafter := (token_agreement sample_identified sampleJti_ne hrenewed hpostgres 2100).2
    (by decide)
  obtain ⟨claims', haccepted', hclaims'⟩ := hbefore
  exact ⟨_, hrenewed, ⟨claims', haccepted', hclaims' "jti"⟩, hafter⟩

end Tokens
end HermesPlatform
