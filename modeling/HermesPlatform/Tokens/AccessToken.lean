/-
  HermesPlatform.Tokens.AccessToken

  The MCP access token of an execution: `issue_mcp_access_token` of the backend and
  `verify_mcp_access_token` of the gateway.

  The token carries the sixteen bytes of the execution's id and as many of their signature.  The
  gateway accepts the token of an id and no other text, also no other spelling of the same bytes
  (`accessToken_accepted_iff`).  A text that is not ASCII in the place of the id raises a
  `UnicodeEncodeError` instead of the refusal.
-/

import HermesPlatform.Lib.Uuid
import HermesPlatform.Tokens.CapabilityToken

namespace HermesPlatform
namespace Tokens

open Base64 Json

def accessKind : List Char := ['m', 'c', 'p', '2']

/-- The signature is cut to half of its bytes. -/
def accessSignature (env : TokenEnv) (key : String) (message : List UInt8) : List UInt8 :=
  (env.hmac key message).take 16

/-- The token with these bytes. -/
def assembleAccess (env : TokenEnv) (key : String) (payload : List UInt8) : String :=
  let signed := signedText accessKind (base64url payload)
  String.ofList (signed ++ '.' :: base64url (accessSignature env key (asciiBytes signed)))

/-- `issue_mcp_access_token`, `none` where the id is no UUID. -/
def issueMcpAccessToken (env : TokenEnv) (key executionId : String) : Option String :=
  (Uuid.parse executionId).map fun u => assembleAccess env key u.bytes

/-- `verify_mcp_access_token`. -/
def verifyMcpAccessToken (env : TokenEnv) (key token : String) : Except TokenError String :=
  match splitToken token with
  | none => .error (.denied "access denied: malformed MCP access token")
  | some (kind, encoded, signature) =>
      if kind ≠ accessKind then .error (.denied "access denied: unsupported MCP access token")
      else
        match encodeAscii (signedText kind encoded) with
        | none => .error .unicodeEncode
        | some message =>
            match decodeCanonical true signature with
            | none => .error (.denied "access denied: malformed MCP signature")
            | some actual =>
                if actual ≠ accessSignature env key message then
                  .error (.denied "access denied: invalid MCP signature")
                else
                  match decodeCanonical true encoded with
                  | none => .error (.denied "access denied: malformed MCP execution id")
                  | some raw =>
                      if h : raw.length = 16 then .ok (Uuid.ofBytes raw h).str
                      else .error (.denied "access denied: malformed MCP execution id")

variable {env : TokenEnv} {key : String}

theorem isUrlsafe_accessKind : ∀ c ∈ accessKind, isUrlsafe c = true :=
  List.all_eq_true.mp (by decide)

theorem ascii_signedText {kind encoded : List Char} (hkind : ∀ c ∈ kind, isUrlsafe c = true)
    (hencoded : ∀ c ∈ encoded, isUrlsafe c = true) :
    encodeAscii (signedText kind encoded) = some (asciiBytes (signedText kind encoded)) := by
  rw [encodeAscii, if_pos]
  rw [List.all_eq_true, signedText]
  intro c hc
  rcases List.mem_append.mp hc with hc | hc
  · exact decide_eq_true (ascii_of_isUrlsafe (hkind c hc))
  · rcases List.mem_cons.mp hc with rfl | hc
    · rfl
    · exact decide_eq_true (ascii_of_isUrlsafe (hencoded c hc))

theorem splitToken_assembleAccess (payload : List UInt8) :
    splitToken (assembleAccess env key payload) = some (accessKind, base64url payload,
      base64url (accessSignature env key
        (asciiBytes (signedText accessKind (base64url payload))))) := by
  have hparts : splitMax '.' 2 (assembleAccess env key payload).toList = [accessKind,
      base64url payload, base64url
        (accessSignature env key (asciiBytes (signedText accessKind (base64url payload))))] := by
    rw [assembleAccess, String.toList_ofList]
    simp only [signedText, List.append_assoc, List.cons_append]
    rw [splitMax_append (isUrlsafe_ne_dot isUrlsafe_accessKind),
      splitMax_append (isUrlsafe_ne_dot fun c hc => isUrlsafe_base64url hc), splitMax]
  rw [splitToken, hparts]

/-- The gateway reads the id of the token that the backend makes for it. -/
theorem verifyMcpAccessToken_assemble (u : Uuid) :
    verifyMcpAccessToken env key (assembleAccess env key u.bytes) = .ok u.str := by
  rw [verifyMcpAccessToken, splitToken_assembleAccess]
  dsimp only
  rw [if_neg (not_not.mpr rfl),
    ascii_signedText isUrlsafe_accessKind fun c hc => isUrlsafe_base64url hc]
  dsimp only
  rw [(decodeCanonical_eq_some _).mpr rfl]
  dsimp only
  rw [if_neg (not_not.mpr rfl), (decodeCanonical_eq_some _).mpr rfl]
  dsimp only
  rw [dif_pos u.length_bytes, Uuid.ofBytes_bytes]

/-- An accepted token is the one of the id that is read from it. -/
theorem eq_assembleAccess {token id : String} (h : verifyMcpAccessToken env key token = .ok id) :
    ∃ u : Uuid, id = u.str ∧ token = assembleAccess env key u.bytes := by
  unfold verifyMcpAccessToken at h
  split at h
  next => cases h
  next kind encoded signature hsplit =>
    split at h
    next => cases h
    next hkind =>
      split at h
      next => cases h
      next message hmessage =>
        split at h
        next => cases h
        next actual hactual =>
          split at h
          next => cases h
          next hsame =>
            split at h
            next => cases h
            next raw hraw =>
              split at h
              next hlength =>
                cases h
                refine ⟨Uuid.ofBytes raw hlength, rfl, ?_⟩
                have hencoded : encoded = base64url raw := (decodeCanonical_eq_some _).mp hraw
                have hsignature : signature = base64url actual :=
                  (decodeCanonical_eq_some _).mp hactual
                rw [Uuid.bytes_ofBytes, assembleAccess, ← hencoded, ← not_not.mp hkind,
                  ← encodeAscii_eq_some hmessage, ← not_not.mp hsame, ← hsignature,
                  ← toList_of_splitToken hsplit, String.ofList_toList]
              next => cases h

/-- **The access token of an execution.**  The gateway accepts a token just when it is the one
    that the backend issues for the id that the gateway reads from it; whatever way the id of an
    execution is written, its token is read as the usual text of that id; and two accepted tokens
    for one id are the same. -/
theorem accessToken_accepted_iff (env : TokenEnv) (key : String) :
    (∀ token id, verifyMcpAccessToken env key token = .ok id ↔
      issueMcpAccessToken env key id = some token ∧ (Uuid.parse id).map Uuid.str = some id) ∧
    (∀ executionId token, issueMcpAccessToken env key executionId = some token →
      ∃ u, Uuid.parse executionId = some u ∧ verifyMcpAccessToken env key token = .ok u.str) ∧
    (∀ token token' id, verifyMcpAccessToken env key token = .ok id →
      verifyMcpAccessToken env key token' = .ok id → token = token') := by
  refine ⟨?_, ?_, ?_⟩
  · intro token id
    refine ⟨?_, ?_⟩
    · intro h
      obtain ⟨u, rfl, rfl⟩ := eq_assembleAccess h
      rw [issueMcpAccessToken, Uuid.parse_str]
      exact ⟨rfl, rfl⟩
    · rintro ⟨hissue, hid⟩
      obtain ⟨u, hparse, rfl⟩ := Option.map_eq_some_iff.mp hissue
      rw [hparse, Option.map_some, Option.some.injEq] at hid
      rw [verifyMcpAccessToken_assemble, hid]
  · intro executionId token hissue
    obtain ⟨u, hparse, rfl⟩ := Option.map_eq_some_iff.mp hissue
    exact ⟨u, hparse, verifyMcpAccessToken_assemble u⟩
  · intro token token' id h h'
    obtain ⟨u, hu, rfl⟩ := eq_assembleAccess h
    obtain ⟨u', hu', rfl⟩ := eq_assembleAccess h'
    rw [Uuid.str_injective (hu.symm.trans hu')]

end Tokens
end HermesPlatform
