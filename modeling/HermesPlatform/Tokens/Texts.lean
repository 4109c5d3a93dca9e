/-
  HermesPlatform.Tokens.Texts

  The verifiers of `Totality` and those of `CapabilityToken` end alike on a token that is a text
  without unpaired surrogates, where they read its payload alike.
-/

import HermesPlatform.Tokens.Totality

namespace HermesPlatform
namespace Tokens
namespace Totality

open Exceptions Python
open Gateway.Audit (Text text PyFloat PyValue)

/-! ## Segments -/

/-- The code points of a text. -/
def codes (cs : List Char) : Text := cs.map Char.toNat

theorem toNat_injective : Function.Injective Char.toNat := by
  intro c d h
  rw [← Char.ofNat_toNat c, h, Char.ofNat_toNat]

theorem codes_injective : Function.Injective codes := List.map_injective_iff.mpr toNat_injective

theorem splitMax_codes (n : Nat) (cs : List Char) :
    splitMax dot n (codes cs) = (Tokens.splitMax '.' n cs).map codes := by
  induction n generalizing cs with
  | zero => rfl
  | succ n ih =>
      have hdot : ((fun c => decide (c ≠ dot)) ∘ Char.toNat) = fun c => decide (c ≠ '.') := by
        funext c
        exact decide_eq_decide.mpr (not_congr toNat_injective.eq_iff)
      rw [splitMax, Tokens.splitMax, codes, List.dropWhile_map, List.takeWhile_map, hdot]
      cases cs.dropWhile fun c => decide (c ≠ '.') with
      | nil => rfl
      | cons c rest => exact congrArg (List.cons _) (ih rest)

theorem unpackToken_text (token : String) :
    unpackToken (text token) =
      match splitToken token with
      | none => .error .valueError
      | some (kind, encoded, signature) => .ok (codes kind, codes encoded, codes signature) := by
  have hsplit := splitMax_codes 2 token.toList
  have htext : text token = codes token.toList := rfl
  rw [unpackToken, splitToken, htext, hsplit]
  obtain - | ⟨kind, - | ⟨encoded, - | ⟨signature, - | ⟨part, parts⟩⟩⟩⟩ :=
    Tokens.splitMax '.' 2 token.toList
  all_goals rfl

theorem isAscii_codes (cs : List Char) : isAscii (codes cs) = cs.all fun c => c.toNat < 128 := by
  rw [isAscii, codes, List.all_map]
  rfl

theorem encodeAscii_codes (cs : List Char) :
    encodeAscii (codes cs) =
      match Tokens.encodeAscii cs with
      | none => .error .unicodeEncodeError
      | some message => .ok message := by
  rw [encodeAscii, isAscii_codes, Tokens.encodeAscii]
  split
  · rw [codes, List.map_map]
    rfl
  · rfl

theorem signedText_codes (kind encoded : List Char) :
    signedText (codes kind) (codes encoded) = codes (Tokens.signedText kind encoded) := by
  rw [signedText, Tokens.signedText, codes, codes, codes, List.map_append, List.map_cons]
  rfl

theorem padding_codes (cs : List Char) : padding (codes cs) = codes (Base64.padding cs) := by
  rw [padding, Base64.padding, codes, codes, List.map_replicate, List.length_map]

theorem map_ofNat_codes (cs : List Char) : (codes cs).map Char.ofNat = cs := by
  have hsame : ∀ c ∈ cs, (Char.ofNat ∘ Char.toNat) c = id c := fun c _ => Char.ofNat_toNat c
  rw [codes, List.map_map, List.map_congr_left hsame, List.map_id]

theorem b64decode_codes (strict : Bool) (cs : List Char) :
    (∃ decoded, Base64.b64decode strict cs = some decoded ∧
      b64decode strict (codes cs) = .ok decoded) ∨
    (Base64.b64decode strict cs = none ∧
      ∃ e, b64decode strict (codes cs) = .error e ∧ e.isValueError = true) := by
  rw [b64decode, isAscii_codes, map_ofNat_codes]
  cases hdecoded : Base64.b64decode strict cs with
  | none =>
      refine .inr ⟨rfl, ?_⟩
      split
      · exact ⟨_, rfl, rfl⟩
      · exact ⟨_, rfl, rfl⟩
  | some decoded =>
      refine .inl ⟨decoded, rfl, ?_⟩
      rw [Base64.b64decode] at hdecoded
      split at hdecoded
      next hascii => rw [if_pos hascii]
      next => cases hdecoded

/-- The exception of the other model. -/
def ofTokenError : TokenError → Exc
  | .denied message => .denied message
  | .unicodeEncode => .unicodeEncodeError

theorem compareDigest_codes {cs : List Char} (h : isAscii (codes cs) = true)
    (decoded : List UInt8) :
    compareDigest (base64url decoded) (codes cs) =
      .ok (decide (Base64.base64url decoded = cs)) := by
  rw [compareDigest, if_pos (by rw [isAscii_base64url, h]; rfl)]
  exact congrArg Except.ok (decide_eq_decide.mpr codes_injective.eq_iff)

theorem base64urlDecode_codes (cs : List Char) :
    base64urlDecode (codes cs) =
      match Tokens.base64urlDecode cs with
      | .error e => .error (ofTokenError e)
      | .ok decoded => .ok decoded := by
  have happend : codes cs ++ padding (codes cs) = codes (cs ++ Base64.padding cs) := by
    rw [padding_codes, codes, codes, codes, List.map_append]
  rw [base64urlDecode, decodeSegment, Tokens.base64urlDecode, happend]
  obtain ⟨decoded, hold, hnew⟩ | ⟨hold, e, hnew, hcaught⟩ :=
    b64decode_codes false (cs ++ Base64.padding cs)
  · have hascii := isAscii_of_b64decode hnew
    rw [isAscii_codes, List.all_append, Bool.and_eq_true, ← isAscii_codes] at hascii
    rw [hold, hnew]
    simp only [guarded, handled, bind, Except.bind, compareDigest_codes hascii.1]
    by_cases hsame : Base64.base64url decoded = cs
    · simp [hsame, check, pure, Except.pure]
    · simp [hsame, check, ofTokenError]
  · rw [hold, hnew]
    simp [guarded, handled, hcaught, bind, Except.bind, ofTokenError]

theorem decodeStrict_codes (cs : List Char) :
    (∃ decoded, Base64.decodeCanonical true cs = some decoded ∧
      decodeStrict (codes cs) = .ok decoded) ∨
    (Base64.decodeCanonical true cs = none ∧
      ∃ e, decodeStrict (codes cs) = .error e ∧ e.isValueError = true) := by
  have hagree (decoded : List UInt8) :
      decodeStrict (codes cs) = .ok decoded ↔ Base64.decodeCanonical true cs = some decoded := by
    rw [decodeStrict_eq_ok, Base64.decodeCanonical_eq_some, ← codes_injective.eq_iff]
    rfl
  cases hold : Base64.decodeCanonical true cs with
  | some decoded => exact .inl ⟨decoded, rfl, (hagree decoded).mpr hold⟩
  | none =>
      refine .inr ⟨rfl, ?_⟩
      cases hnew : decodeStrict (codes cs) with
      | ok decoded =>
          have hsome := (hagree decoded).mp hnew
          rw [hold] at hsome
          cases hsome
      | error e =>
          refine ⟨e, rfl, ?_⟩
          by_contra hcaught
          exact decodeStrict_caught (codes cs) ⟨e, hnew, Bool.eq_false_iff.mpr hcaught⟩

/-! ## Claims -/

section Claims

variable (float : FloatText → PyFloat)

mutual
/-- The value of a payload, as Python has it. -/
def ofJson : Json → PyValue
  | .null => .none
  | .bool b => .bool b
  | .int n => .int n
  | .float f => .float (float f)
  | .string s => .str (text s)
  | .array items => .list (ofItems items)
  | .object members => .dict (ofMembers members)
def ofItems : List Json → List PyValue
  | [] => []
  | v :: rest => ofJson v :: ofItems rest
def ofMembers : List (String × Json) → List (Text × PyValue)
  | [] => []
  | (k, v) :: rest => (text k, ofJson v) :: ofMembers rest
end

theorem ofItems_eq_map (items : List Json) : ofItems float items = items.map (ofJson float) := by
  induction items with
  | nil => rfl
  | cons v rest ih => rw [ofItems, ih, List.map_cons]

theorem ofMembers_eq_map (members : List (String × Json)) :
    ofMembers float members = members.map fun m => (text m.1, ofJson float m.2) := by
  induction members with
  | nil => rfl
  | cons m rest ih => rw [ofMembers, ih, List.map_cons]

theorem text_injective : Function.Injective text :=
  codes_injective.comp fun _ _ h => String.toList_injective h

/-- The claims of both models are the same. -/
def SameClaims (claims : Dict Text PyValue) (claims' : Dict String Json) : Prop :=
  ∀ k, claims.get? (text k) = (claims'.get? k).map (ofJson float)

theorem sameClaims_ofPairs (members : List (String × Json)) :
    SameClaims float (Dict.ofPairs (ofMembers float members)) (Dict.ofPairs members) := by
  intro k
  have hkeys : ∀ m : String × Json, decide (text m.1 = text k) = decide (m.1 = k) :=
    fun m => decide_eq_decide.mpr text_injective.eq_iff
  rw [Dict.get?_ofPairs, Dict.get?_ofPairs, Dict.lastValue, Dict.lastValue, ofMembers_eq_map,
    List.filter_map, List.getLast?_map, Option.map_map, Option.map_map]
  have hfilter : ((fun p : Text × PyValue => decide (p.1 = text k)) ∘
      fun m : String × Json => (text m.1, ofJson float m.2)) = fun m => decide (m.1 = k) :=
    funext hkeys
  rw [hfilter]
  rfl

variable {float} {claims : Dict Text PyValue} {claims' : Dict String Json}

theorem isStr_ofJson (v : Json) : isStr (ofJson float v) = Tokens.isStr v := by
  cases v <;> rfl

theorem isList_ofJson (v : Json) : isList (ofJson float v) = Tokens.isList v := by
  cases v <;> rfl

theorem isInt_ofJson (v : Json) : isInt (ofJson float v) = Tokens.isInt v := by
  cases v <;> rfl

theorem hasKind_agree (h : SameClaims float claims claims') {kind : PyValue → Bool}
    {kind' : Json → Bool} (hkind : ∀ v, kind (ofJson float v) = kind' v) (key : String) :
    hasKind claims key kind = Tokens.hasKind claims' key kind' := by
  rw [hasKind, Tokens.hasKind, h key]
  cases claims'.get? key with
  | none => rfl
  | some v => exact hkind v

/-- The look at `exp`. -/
theorem expiry_agree {α : Type} (h : SameClaims float claims claims') (now : Int) (e : Exc)
    (x : Except Exc α) (hint : hasKind claims "exp" isInt = true) :
    (do
      let exp ← item claims "exp"
      let past ← atMost exp now
      check (!past) e
      x) = if expired claims' now then .error e else x := by
  rw [hasKind, h] at hint
  rw [item, h, expired]
  cases hexp : claims'.get? "exp" with
  | none =>
      rw [hexp] at hint
      cases hint
  | some v =>
      rw [hexp] at hint
      cases v with
      | int n =>
          by_cases hpast : n ≤ now
          · simp [ofJson, atMost, intValue, check, bind, Except.bind, hpast]
          · simp [ofJson, atMost, intValue, check, bind, Except.bind, hpast]
      | bool b =>
          by_cases hpast : (if b then (1 : Int) else 0) ≤ now
          · simp [ofJson, atMost, intValue, check, bind, Except.bind, hpast]
          · simp [ofJson, atMost, intValue, check, bind, Except.bind, hpast]
      | null | float _ | string _ | array _ | object _ => cases hint

theorem checkedExpiry_agree {α : Type} (h : SameClaims float claims claims') (now : Int) (e : Exc)
    (x : Except Exc α) :
    (do
      check (hasKind claims "exp" isInt) e
      let exp ← item claims "exp"
      let past ← atMost exp now
      check (!past) e
      x) = if expired claims' now then .error e else x := by
  cases hint : hasKind claims "exp" isInt with
  | true => exact expiry_agree h now e x hint
  | false =>
      have hexpired : expired claims' now = true := by
        rw [hasKind_agree h isInt_ofJson, Tokens.hasKind] at hint
        rw [expired]
        cases hexp : claims'.get? "exp" with
        | none => rfl
        | some v =>
            rw [hexp] at hint
            have hnone : intValue v = none := Option.not_isSome_iff_eq_none.mp (by
              rw [Bool.not_eq_true]
              exact hint)
            rw [Option.bind_some, hnone]
      rw [if_pos hexpired]
      rfl

theorem requireFields_agree {α : Type} (h : SameClaims float claims claims') (complaint : String)
    (x : Except Exc α) (fields : List String) :
    (do
      requireFields complaint claims fields
      x) = if fields.any fun field => !hasText claims' field then .error (.denied complaint)
        else x := by
  induction fields with
  | nil => rfl
  | cons field fields ih =>
      have hkind := hasKind_agree h isStr_ofJson field
      rw [List.any_cons, requireFields, hkind, item, h, Tokens.hasKind, hasText]
      cases claims'.get? field with
      | none => rfl
      | some v =>
          cases v with
          | string s =>
              -- An empty string is not truthy.
              by_cases hs : s = ""
              · subst hs
                rfl
              · have hcodes : text s ≠ [] := fun heq => hs (text_injective heq)
                simpa [Tokens.isStr, ofJson, check, bind, Except.bind, hcodes, hs] using ih
          | null | bool _ | int _ | float _ | array _ | object _ => rfl

theorem bindingsValid_agree (h : SameClaims float claims claims') :
    bindingsValid claims = Tokens.bindingsValid claims' := by
  rw [bindingsValid, Tokens.bindingsValid, h]
  cases claims'.get? "allowed_bindings" with
  | none => rfl
  | some v =>
      cases v with
      | array items =>
          simp only [Option.map_some, ofJson, ofItems_eq_map, List.all_map]
          exact congrArg items.all (funext isStr_ofJson)
      | null | bool _ | int _ | float _ | string _ | object _ => rfl

end Claims

/-! ## Verifiers -/

section Verifiers

variable {float : FloatText → PyFloat}

/-- Both models end alike. -/
def Agree (float : FloatText → PyFloat) :
    Except Exc (Dict Text PyValue) → Except TokenError (Dict String Json) → Prop
  | .ok claims, .ok claims' => SameClaims float claims claims'
  | .error e, .error e' => e = ofTokenError e'
  | _, _ => False

theorem agree_ite {condition : Bool} {message : String} {x : Except Exc (Dict Text PyValue)}
    {x' : Except TokenError (Dict String Json)} (h : Agree float x x') :
    Agree float (if condition then .error (.denied message) else x)
      (if condition then .error (.denied message) else x') := by
  cases condition with
  | true => exact rfl
  | false => exact h

theorem agree_executionClaims (payload : Json) (now : Int) :
    Agree float (executionClaims (ofJson float payload) now)
      (Tokens.executionClaims payload now) := by
  cases payload with
  | object members =>
      have hsame := sameClaims_ofPairs float members
      have hkinds : (requiredClaims.all fun r =>
          hasKind (Dict.ofPairs (ofMembers float members)) r.1 r.2) =
          !(Tokens.requiredClaims.any fun r => !Tokens.hasKind (Dict.ofPairs members) r.1 r.2) := by
        simp only [requiredClaims, Tokens.requiredClaims, List.all_cons, List.all_nil,
          List.any_cons, List.any_nil, hasKind_agree hsame isStr_ofJson,
          hasKind_agree hsame isList_ofJson, hasKind_agree hsame isInt_ofJson, Bool.not_or,
          Bool.not_not, Bool.or_false, Bool.and_true]
      simp only [ofJson, executionClaims, Tokens.executionClaims]
      cases hall : requiredClaims.all fun r =>
          hasKind (Dict.ofPairs (ofMembers float members)) r.1 r.2 with
      | false =>
          rw [hall, eq_comm, Bool.not_eq_false'] at hkinds
          rw [if_pos hkinds]
          exact rfl
      | true =>
          have hint := List.all_eq_true.mp hall ("exp", isInt) (by simp [requiredClaims])
          rw [hall, eq_comm, Bool.not_eq_true'] at hkinds
          rw [check, if_pos rfl, hkinds, if_neg Bool.false_ne_true]
          have hexpiry := expiry_agree hsame now
            (.denied "execution capability token expired")
            (.ok (Dict.ofPairs (ofMembers float members))) hint
          refine (congrArg (Agree float · _) hexpiry).mpr (agree_ite ?_)
          exact hsame
  | null | bool _ | int _ | float _ | string _ | array _ => exact rfl

theorem agree_capabilityClaims (complaints : Complaints) (payload : Json) (now : Int) :
    Agree float (capabilityClaims complaints (ofJson float payload) now)
      (Tokens.capabilityClaims complaints payload now) := by
  cases payload with
  | object members =>
      have hsame := sameClaims_ofPairs float members
      simp only [ofJson, capabilityClaims, Tokens.capabilityClaims]
      rw [checkedExpiry_agree hsame, requireFields_agree hsame, bindingsValid_agree hsame]
      refine agree_ite (agree_ite ?_)
      cases Tokens.bindingsValid (Dict.ofPairs members) with
      | true => exact hsame
      | false => exact rfl
  | null | bool _ | int _ | float _ | string _ | array _ => exact rfl

/-- Both models make the same of the payload of a token. -/
def ReadsAlike (float : FloatText → PyFloat) (env : PyEnv) (env' : TokenEnv) (token : String) :
    Prop :=
  ∀ kind signature bytes, splitToken token = some (kind, Base64.base64url bytes, signature) →
    (∃ v, Json.loads env'.decoders bytes = some v ∧ loads env bytes = .ok (ofJson float v)) ∨
    (Json.loads env'.decoders bytes = none ∧
      ∃ e, loads env bytes = .error e ∧ e.isValueError = true)

theorem codes_eq_capabilityPrefix (kind : List Char) :
    decide (codes kind = capabilityPrefix) = decide (kind = capabilityKind) :=
  decide_eq_decide.mpr codes_injective.eq_iff

variable {env : PyEnv} {env' : TokenEnv} {token : String}

theorem readSegments_text (malformed unsupported : String) :
    readSegments malformed unsupported (text token) =
      match splitToken token with
      | none => .error (.denied malformed)
      | some (kind, encoded, signature) =>
          if kind ≠ capabilityKind then .error (.denied unsupported)
          else
            match Tokens.encodeAscii (Tokens.signedText kind encoded) with
            | none => .error .unicodeEncodeError
            | some message => .ok (codes encoded, codes signature, message) := by
  rw [readSegments, unpackToken_text]
  cases splitToken token with
  | none => rfl
  | some segments =>
      obtain ⟨kind, encoded, signature⟩ := segments
      simp only [guarded, handled, bind, Except.bind, codes_eq_capabilityPrefix, check]
      by_cases hkind : kind = capabilityKind
      · rw [if_pos (decide_eq_true hkind), if_neg (not_not.mpr hkind)]
        simp only [signedText_codes, encodeAscii_codes]
        cases Tokens.encodeAscii (Tokens.signedText kind encoded) with
        | none => rfl
        | some message => rfl
      · rw [if_neg (by simpa using hkind), if_pos hkind]

/-- **The backend's verifier** is that of the other model. -/
theorem agree_verifyExecution (hhmac : env.hmac = env'.hmac)
    (hreads : ReadsAlike float env env' token) (key : String) (now : Int) :
    Agree float (verifyExecutionCapabilityToken env key (text token) now)
      (Tokens.verifyExecutionCapabilityToken env' key token now) := by
  rw [verifyExecutionCapabilityToken, Tokens.verifyExecutionCapabilityToken, readSegments_text]
  cases hsplit : splitToken token with
  | none => exact rfl
  | some segments =>
      obtain ⟨kind, encoded, signature⟩ := segments
      simp only
      by_cases hkind : kind = capabilityKind
      · rw [if_neg (not_not.mpr hkind), if_neg (not_not.mpr hkind)]
        cases Tokens.encodeAscii (Tokens.signedText kind encoded) with
        | none => exact rfl
        | some message =>
            simp only [bind, Except.bind, base64urlDecode_codes, hhmac, check]
            cases Tokens.base64urlDecode signature with
            | error e => exact rfl
            | ok actual =>
                simp only
                by_cases hsame : actual = env'.hmac key message
                · rw [if_pos (decide_eq_true hsame), if_neg (not_not.mpr hsame)]
                  simp only
                  cases hbytes : Tokens.base64urlDecode encoded with
                  | error e =>
                      -- Whatever the decoder says, the handler's denial is raised.
                      cases e <;> exact rfl
                  | ok bytes =>
                      obtain rfl := Tokens.base64urlDecode_eq_ok.mp hbytes
                      obtain ⟨v, hold, hnew⟩ | ⟨hold, e, hnew, hcaught⟩ :=
                        hreads _ _ _ hsplit
                      · simp only [hold, hnew, guarded, handled]
                        exact agree_executionClaims v now
                      · simp only [hold, hnew, guarded, handled, hcaught, if_true]
                        exact rfl
                · rw [if_neg (by simpa using hsame), if_pos hsame]
                  exact rfl
      · rw [if_pos hkind, if_pos hkind]
        exact rfl

/-- **The other verifiers** are those of the other model. -/
theorem agree_verifyToken (hhmac : env.hmac = env'.hmac)
    (hreads : ReadsAlike float env env' token) (complaints : Complaints) (key : String)
    (now : Int) :
    Agree float (verifyToken complaints env key (text token) now)
      (Tokens.verifyToken complaints env' key token now) := by
  rw [verifyToken, Tokens.verifyToken, readSegments_text]
  cases hsplit : splitToken token with
  | none => exact rfl
  | some segments =>
      obtain ⟨kind, encoded, signature⟩ := segments
      simp only
      by_cases hkind : kind = capabilityKind
      · rw [if_neg (not_not.mpr hkind), if_neg (not_not.mpr hkind)]
        cases Tokens.encodeAscii (Tokens.signedText kind encoded) with
        | none => exact rfl
        | some message =>
            simp only [bind, Except.bind, hhmac, check]
            obtain ⟨actual, hold, hnew⟩ | ⟨hold, e, hnew, hcaught⟩ := decodeStrict_codes signature
            · obtain ⟨bytes, hbytes, hbytes'⟩ | ⟨hbytes, e, hbytes', hcaught⟩ :=
                decodeStrict_codes encoded
              · obtain rfl := (Base64.decodeCanonical_eq_some true).mp hbytes
                obtain ⟨v, hread, hread'⟩ | ⟨hread, e, hread', hcaught⟩ := hreads _ _ _ hsplit
                · simp only [hold, hnew, hbytes, hbytes', hread, hread', Option.bind_some, pure,
                    Except.pure, guarded, handled]
                  by_cases hsame : actual = env'.hmac key message
                  · rw [if_pos (decide_eq_true hsame), if_neg (not_not.mpr hsame)]
                    exact agree_capabilityClaims complaints v now
                  · rw [if_neg (by simpa using hsame), if_pos hsame]
                    exact rfl
                · simp only [hold, hnew, hbytes, hbytes', hread, hread', Option.bind_some,
                    guarded, handled, hcaught, if_true]
                  exact rfl
              · simp only [hold, hnew, hbytes, hbytes', Option.bind_none, guarded, handled,
                  hcaught, if_true]
                exact rfl
            · simp only [hold, hnew, guarded, handled, hcaught, if_true]
              exact rfl
      · rw [if_pos hkind, if_pos hkind]
        exact rfl

end Verifiers

end Totality
end Tokens
end HermesPlatform
