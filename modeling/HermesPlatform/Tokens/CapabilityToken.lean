/-
  HermesPlatform.Tokens.CapabilityToken

  Execution capability tokens: `issue_execution_capability_token` of the backend,
  `renew_capability_token` of the gateway, and the verifiers of the backend, the
  gateway and the PostgreSQL MCP server.

  A verifier accepts only what `assemble` builds from a payload (`accepted_assembled`),
  and of what is assembled it looks at the payload alone.

  HMAC-SHA256 is a parameter, and nothing is assumed of it.
-/

import HermesPlatform.Lib.Base64
import HermesPlatform.Lib.JsonText

namespace HermesPlatform
namespace Tokens

open Python Base64 Json

/-- What signing and reading rest on: `hmac.new(key.encode(), message, sha256).digest()`,
    and the decoders of JSON. -/
structure TokenEnv where
  hmac : String → List UInt8 → List UInt8
  decoders : Decoders

inductive TokenError where
  | denied (message : String)
  | unicodeEncode
deriving DecidableEq, Repr

/-! ## Text -/

/-- `text.split(separator, n)`. -/
def splitMax (separator : Char) : Nat → List Char → List (List Char)
  | 0, text => [text]
  | n + 1, text =>
      match text.dropWhile (· ≠ separator) with
      | [] => [text]
      | _ :: rest => text.takeWhile (· ≠ separator) :: splitMax separator n rest

/-- `prefix, encoded, signature = token.split(".", 2)`. -/
def splitToken (token : String) : Option (List Char × List Char × List Char) :=
  match splitMax '.' 2 token.toList with
  | [kind, encoded, signature] => some (kind, encoded, signature)
  | _ => none

def capabilityKind : List Char := "cap1".toList

/-- `f"{prefix}.{encoded}"`. -/
def signedText (kind encoded : List Char) : List Char := kind ++ '.' :: encoded

/-- `text.encode("ascii")`. -/
def encodeAscii (text : List Char) : Option (List UInt8) :=
  if text.all fun c => c.toNat < 128 then some (asciiBytes text) else none

/-- The token with a payload. -/
def assemble (env : TokenEnv) (key : String) (payload : List UInt8) : String :=
  let signed := signedText capabilityKind (base64url payload)
  String.ofList (signed ++ '.' :: base64url (env.hmac key (asciiBytes signed)))

/-- The token with these claims. -/
def sign (env : TokenEnv) (key : String) (claims : Dict String Json) : String :=
  assemble env key (asciiBytes (dumpsAscii (.object claims.entries)))

/-! ## Issuing and renewing -/

/-- The arguments of `issue_execution_capability_token`. -/
structure IssueArguments where
  executionId : String
  agentId : String
  agentVersionId : String
  runtimeId : String
  allowedBindings : List String
  resolutionDigest : String

/-- The claims that are issued. -/
def IssueArguments.claims (a : IssueArguments) (iat exp : Int) (jti : String) : Dict String Json :=
  Dict.ofPairs [("sub", .string ("execution:" ++ a.executionId)),
    ("execution_id", .string a.executionId), ("agent_id", .string a.agentId),
    ("agent_version_id", .string a.agentVersionId), ("runtime_id", .string a.runtimeId),
    ("allowed_bindings", .array ((a.allowedBindings.dedup.insertionSort (· ≤ ·)).map .string)),
    ("resolution_digest", .string a.resolutionDigest), ("iat", .int iat), ("exp", .int exp),
    ("jti", .string jti)]

/-- `issue_execution_capability_token`, at the time `now`. -/
def issueExecutionCapabilityToken (env : TokenEnv) (key : String) (a : IssueArguments)
    (ttlSeconds now : Int) (jti : String) : String :=
  sign env key (a.claims now (now + ttlSeconds) jti)

/-- `renew_capability_token`, which reads the clock twice. -/
def renewCapabilityToken (env : TokenEnv) (key : String) (claims : Dict String Json)
    (ttlSeconds now later : Int) : String :=
  sign env key ((claims.set "iat" (.int now)).set "exp" (.int (later + ttlSeconds)))

/-! ## Verifying -/

def isStr : Json → Bool
  | .string _ => true
  | _ => false

def isList : Json → Bool
  | .array _ => true
  | _ => false

/-- The value of an `int`, which `True` and `False` are too. -/
def intValue : Json → Option Int
  | .int n => some n
  | .bool b => some (if b then 1 else 0)
  | _ => none

def isInt (v : Json) : Bool := (intValue v).isSome

/-- `isinstance(claims.get(key), kind)`. -/
def hasKind (claims : Dict String Json) (key : String) (kind : Json → Bool) : Bool :=
  match claims.get? key with
  | none => false
  | some v => kind v

/-- `claims["exp"] <= current`; the value is an `int`. -/
def expired (claims : Dict String Json) (current : Int) : Bool :=
  match (claims.get? "exp").bind intValue with
  | none => true
  | some exp => exp ≤ current

/-- `_base64url_decode` of the backend. -/
def base64urlDecode (value : List Char) : Except TokenError (List UInt8) :=
  match b64decode false (value ++ padding value) with
  | none => .error (.denied "malformed execution capability token encoding")
  | some decoded =>
      if base64url decoded ≠ value then
        .error (.denied "non-canonical execution capability token encoding")
      else .ok decoded

def requiredClaims : List (String × (Json → Bool)) :=
  [("execution_id", isStr), ("agent_id", isStr), ("agent_version_id", isStr), ("runtime_id", isStr),
    ("allowed_bindings", isList), ("resolution_digest", isStr), ("iat", isInt), ("exp", isInt),
    ("jti", isStr)]

/-- What `verify_execution_capability_token` requires of the payload. -/
def executionClaims (payload : Json) (current : Int) : Except TokenError (Dict String Json) :=
  match payload with
  | .object members =>
      let claims := Dict.ofPairs members
      if requiredClaims.any fun r => !hasKind claims r.1 r.2 then
        .error (.denied "incomplete execution capability token claims")
      else if expired claims current then .error (.denied "execution capability token expired")
      else .ok claims
  | _ => .error (.denied "invalid execution capability token claims")

/-- `verify_execution_capability_token` of the backend. -/
def verifyExecutionCapabilityToken (env : TokenEnv) (key token : String) (current : Int) :
    Except TokenError (Dict String Json) :=
  match splitToken token with
  | none => .error (.denied "malformed execution capability token")
  | some (kind, encoded, signature) =>
      if kind ≠ capabilityKind then .error (.denied "unsupported execution capability token")
      else
        match encodeAscii (signedText kind encoded) with
        | none => .error .unicodeEncode
        | some message =>
            match base64urlDecode signature with
            | .error e => .error e
            | .ok actual =>
                if actual ≠ env.hmac key message then
                  .error (.denied "invalid execution capability token signature")
                else
                  match base64urlDecode encoded with
                  | .error _ => .error (.denied "invalid execution capability token payload")
                  | .ok bytes =>
                      match loads env.decoders bytes with
                      | none => .error (.denied "invalid execution capability token payload")
                      | some payload => executionClaims payload current

/-- The messages of a verifier outside the backend. -/
structure Complaints where
  malformed : String
  unsupported : String
  encoding : String
  signature : String
  claims : String
  expired : String
  incomplete : String
  bindings : String

/-- `isinstance(payload.get(field), str) and payload[field]`. -/
def hasText (claims : Dict String Json) (field : String) : Bool :=
  match claims.get? field with
  | some (.string s) => s ≠ ""
  | _ => false

def identifierFields : List String :=
  ["execution_id", "agent_id", "agent_version_id", "resolution_digest", "jti"]

/-- `allowed_bindings` is a list of strings. -/
def bindingsValid (claims : Dict String Json) : Bool :=
  match claims.get? "allowed_bindings" with
  | some (.array items) => items.all isStr
  | _ => false

/-- What the verifiers outside the backend require of the payload. -/
def capabilityClaims (complaints : Complaints) (payload : Json) (current : Int) :
    Except TokenError (Dict String Json) :=
  match payload with
  | .object members =>
      let claims := Dict.ofPairs members
      if expired claims current then .error (.denied complaints.expired)
      else if identifierFields.any fun field => !hasText claims field then
        .error (.denied complaints.incomplete)
      else if !bindingsValid claims then .error (.denied complaints.bindings)
      else .ok claims
  | _ => .error (.denied complaints.claims)

/-- The verifier outside the backend, which reads the payload before it compares the
    signatures. -/
def verifyToken (complaints : Complaints) (env : TokenEnv) (key token : String) (current : Int) :
    Except TokenError (Dict String Json) :=
  match splitToken token with
  | none => .error (.denied complaints.malformed)
  | some (kind, encoded, signature) =>
      if kind ≠ capabilityKind then .error (.denied complaints.unsupported)
      else
        match encodeAscii (signedText kind encoded) with
        | none => .error .unicodeEncode
        | some message =>
            match decodeCanonical true signature,
                (decodeCanonical true encoded).bind (loads env.decoders) with
            | some actual, some payload =>
                if actual ≠ env.hmac key message then .error (.denied complaints.signature)
                else capabilityClaims complaints payload current
            | _, _ => .error (.denied complaints.encoding)

def gatewayComplaints : Complaints where
  malformed := "access denied: malformed capability token"
  unsupported := "access denied: unsupported capability token"
  encoding := "access denied: malformed capability token encoding"
  signature := "access denied: invalid capability token signature"
  claims := "access denied: invalid capability token claims"
  expired := "access denied: capability token expired"
  incomplete := "access denied: incomplete capability token claims"
  bindings := "access denied: invalid capability token bindings"

/-- `verify_capability_token` of the gateway. -/
def verifyGatewayToken := verifyToken gatewayComplaints

/-- A payload that is no object counts as expired here. -/
def postgresComplaints : Complaints where
  malformed := "capability token 格式无效"
  unsupported := "capability token 类型无效"
  encoding := "capability token 编码无效"
  signature := "capability token 签名无效"
  claims := "capability token 已过期"
  expired := "capability token 已过期"
  incomplete := "capability token 声明不完整"
  bindings := "capability token Binding 无效"

/-- `verify_capability_token` of the PostgreSQL MCP server. -/
def verifyPostgresToken := verifyToken postgresComplaints

abbrev Verifier := TokenEnv → String → String → Int → Except TokenError (Dict String Json)

/-- The verifiers of the three services. -/
def verifiers : List Verifier :=
  [verifyExecutionCapabilityToken, verifyGatewayToken, verifyPostgresToken]

/-! ## The segments of a token -/

theorem splitMax_ne_nil (separator : Char) (n : Nat) (text : List Char) :
    splitMax separator n text ≠ [] := by
  cases n with
  | zero => exact List.cons_ne_nil _ _
  | succ n =>
      rw [splitMax]
      split
      · exact List.cons_ne_nil _ _
      · exact List.cons_ne_nil _ _

/-- The segments, joined by the separator, are the text. -/
theorem splitMax_intercalate (separator : Char) (n : Nat) (text : List Char) :
    [separator].intercalate (splitMax separator n text) = text := by
  induction n generalizing text with
  | zero => rw [splitMax, List.intercalate_singleton]
  | succ n ih =>
      have hsplit := List.takeWhile_append_dropWhile (p := (· ≠ separator)) (l := text)
      rw [splitMax]
      cases hrest : text.dropWhile (· ≠ separator) with
      | nil => rw [List.intercalate_singleton]
      | cons c rest =>
          have hne : text.dropWhile (· ≠ separator) ≠ [] := by rw [hrest]; exact List.cons_ne_nil _ _
          have hc : c = separator := by
            have hhead := List.head_dropWhile_not (· ≠ separator) hne
            simp only [hrest, List.head_cons] at hhead
            simpa using hhead
          have hjoin := ih rest
          dsimp only
          cases hparts : splitMax separator n rest with
          | nil => exact absurd hparts (splitMax_ne_nil separator n rest)
          | cons part parts =>
              rw [hparts] at hjoin
              rw [List.intercalate_cons_cons, hjoin, List.append_assoc]
              rw [hrest, hc] at hsplit
              exact hsplit

/-- A segment without the separator is split off. -/
theorem splitMax_append {separator : Char} {segment : List Char} (h : ∀ c ∈ segment, c ≠ separator)
    (n : Nat) (rest : List Char) :
    splitMax separator (n + 1) (segment ++ separator :: rest) =
      segment :: splitMax separator n rest := by
  have hall : ∀ c ∈ segment, decide (c ≠ separator) = true := fun c hc => decide_eq_true (h c hc)
  have hdrop : (separator :: rest).dropWhile (· ≠ separator) = separator :: rest := by simp
  have htake : (separator :: rest).takeWhile (· ≠ separator) = [] := by simp
  rw [splitMax, List.dropWhile_append_of_pos hall, hdrop, List.takeWhile_append_of_pos hall, htake,
    List.append_nil]

theorem toList_of_splitToken {token : String} {kind encoded signature : List Char}
    (h : splitToken token = some (kind, encoded, signature)) :
    token.toList = signedText kind encoded ++ '.' :: signature := by
  unfold splitToken at h
  split at h
  · rename_i kind' encoded' signature' hparts
    cases h
    rw [← splitMax_intercalate '.' 2 token.toList, hparts, List.intercalate_cons_cons,
      List.intercalate_cons_cons, List.intercalate_singleton, signedText]
    simp only [List.append_assoc, List.cons_append, List.nil_append]
  · cases h

theorem isUrlsafe_ne_dot {text : List Char} (h : ∀ c ∈ text, isUrlsafe c = true) :
    ∀ c ∈ text, c ≠ '.' := fun c hc => ne_of_isUrlsafe (h c hc) rfl

theorem isUrlsafe_capabilityKind : ∀ c ∈ capabilityKind, isUrlsafe c = true :=
  List.all_eq_true.mp (by decide)

variable {env : TokenEnv} {key : String}

theorem splitToken_assemble (payload : List UInt8) :
    splitToken (assemble env key payload) = some (capabilityKind, base64url payload,
      base64url (env.hmac key (asciiBytes (signedText capabilityKind (base64url payload))))) := by
  have htext : (assemble env key payload).toList = capabilityKind ++ '.' :: (base64url payload ++
      '.' :: base64url (env.hmac key (asciiBytes (signedText capabilityKind (base64url payload))))) := by
    rw [assemble, String.toList_ofList]
    simp only [signedText, List.append_assoc, List.cons_append]
  have hparts : splitMax '.' 2 (assemble env key payload).toList = [capabilityKind, base64url payload,
      base64url (env.hmac key (asciiBytes (signedText capabilityKind (base64url payload))))] := by
    rw [htext, splitMax_append (isUrlsafe_ne_dot isUrlsafe_capabilityKind),
      splitMax_append (isUrlsafe_ne_dot fun c hc => isUrlsafe_base64url hc), splitMax]
  rw [splitToken, hparts]

theorem encodeAscii_signedText (payload : List UInt8) :
    encodeAscii (signedText capabilityKind (base64url payload)) =
      some (asciiBytes (signedText capabilityKind (base64url payload))) := by
  rw [encodeAscii, if_pos]
  rw [List.all_eq_true, signedText]
  intro c hc
  rcases List.mem_append.mp hc with hc | hc
  · exact decide_eq_true (ascii_of_isUrlsafe (isUrlsafe_capabilityKind c hc))
  · rcases List.mem_cons.mp hc with rfl | hc
    · rfl
    · exact decide_eq_true (ascii_of_isUrlsafe (isUrlsafe_base64url hc))

/-! ## Accepted tokens -/

theorem base64urlDecode_eq_ok {value : List Char} {bytes : List UInt8} :
    base64urlDecode value = .ok bytes ↔ value = base64url bytes := by
  rw [← decodeCanonical_eq_some false, base64urlDecode, decodeCanonical]
  cases b64decode false (value ++ padding value) with
  | none => simp
  | some decoded =>
      dsimp only
      by_cases h : base64url decoded = value
      · rw [if_neg (not_not.mpr h), if_pos h, Except.ok.injEq, Option.some.injEq]
      · rw [if_pos h, if_neg h]
        simp

theorem encodeAscii_eq_some {text : List Char} {bytes : List UInt8}
    (h : encodeAscii text = some bytes) : bytes = asciiBytes text := by
  unfold encodeAscii at h
  split at h
  · exact (Option.some.inj h).symm
  · cases h

/-- The segments of a token that carry its kind, its payload and its signature. -/
theorem eq_assemble {token : String} {kind encoded signature : List Char} {message bytes : List UInt8}
    (hsplit : splitToken token = some (kind, encoded, signature)) (hkind : kind = capabilityKind)
    (hmessage : encodeAscii (signedText kind encoded) = some message)
    (hencoded : encoded = base64url bytes) (hsignature : signature = base64url (env.hmac key message)) :
    token = assemble env key bytes := by
  subst hkind hencoded
  rw [encodeAscii_eq_some hmessage] at hsignature
  rw [assemble, ← hsignature, ← toList_of_splitToken hsplit, String.ofList_toList]

/-- **Accepted tokens.** A verifier accepts only what is built from a payload. -/
theorem accepted_assembled {verify : Verifier} (hverify : verify ∈ verifiers) {token : String}
    {now : Int} {claims : Dict String Json} (h : verify env key token now = .ok claims) :
    ∃ payload, token = assemble env key payload := by
  have hstrict : ∀ complaints, verifyToken complaints env key token now = .ok claims →
      ∃ payload, token = assemble env key payload := by
    intro complaints h
    unfold verifyToken at h
    split at h
    · cases h
    · rename_i kind encoded signature hsplit
      split at h
      · cases h
      · rename_i hkind
        split at h
        · cases h
        · rename_i message hmessage
          split at h
          · rename_i actual payload hactual hpayload
            obtain ⟨bytes, hbytes, -⟩ := Option.bind_eq_some_iff.mp hpayload
            split at h
            · cases h
            · rename_i hsame
              rw [decodeCanonical_eq_some, not_not.mp hsame] at hactual
              exact ⟨bytes, eq_assemble hsplit (not_not.mp hkind) hmessage
                ((decodeCanonical_eq_some _).mp hbytes) hactual⟩
          · cases h
  simp only [verifiers, List.mem_cons, List.not_mem_nil, or_false] at hverify
  rcases hverify with rfl | rfl | rfl
  · unfold verifyExecutionCapabilityToken at h
    split at h
    · cases h
    · rename_i kind encoded signature hsplit
      split at h
      · cases h
      · rename_i hkind
        split at h
        · cases h
        · rename_i message hmessage
          split at h
          · cases h
          · rename_i actual hactual
            split at h
            · cases h
            · rename_i hsame
              split at h
              · cases h
              · rename_i bytes hbytes
                rw [base64urlDecode_eq_ok, not_not.mp hsame] at hactual
                exact ⟨bytes, eq_assemble hsplit (not_not.mp hkind) hmessage
                  (base64urlDecode_eq_ok.mp hbytes) hactual⟩
  · exact hstrict _ h
  · exact hstrict _ h

/-- The verifiers see through an assembled token to its payload. -/
theorem verifyToken_assemble (complaints : Complaints) (payload : List UInt8) (now : Int) :
    verifyToken complaints env key (assemble env key payload) now =
      match loads env.decoders payload with
      | none => .error (.denied complaints.encoding)
      | some v => capabilityClaims complaints v now := by
  rw [verifyToken, splitToken_assemble]
  dsimp only
  rw [if_neg (not_not.mpr rfl), encodeAscii_signedText]
  dsimp only
  rw [(decodeCanonical_eq_some _).mpr rfl, (decodeCanonical_eq_some _).mpr rfl, Option.bind_some]
  cases loads env.decoders payload with
  | none => rfl
  | some v => exact if_neg (not_not.mpr rfl)

theorem verifyExecution_assemble (payload : List UInt8) (now : Int) :
    verifyExecutionCapabilityToken env key (assemble env key payload) now =
      match loads env.decoders payload with
      | none => .error (.denied "invalid execution capability token payload")
      | some v => executionClaims v now := by
  rw [verifyExecutionCapabilityToken, splitToken_assemble]
  dsimp only
  rw [if_neg (not_not.mpr rfl), encodeAscii_signedText]
  dsimp only
  rw [base64urlDecode_eq_ok.mpr rfl]
  dsimp only
  rw [if_neg (not_not.mpr rfl), base64urlDecode_eq_ok.mpr rfl]

end Tokens
end HermesPlatform
