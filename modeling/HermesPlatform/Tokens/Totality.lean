/-
  HermesPlatform.Tokens.Totality

  The verifiers of capability tokens on every Python string, step by step with what each step can
  raise.

  Every step that fails on a malformed token stands in a `try`, but for two: the signed text is
  encoded in ASCII outside of it, and a RecursionError of `json.loads` is no ValueError.  So a
  verifier denies a token or accepts it just when neither of them is reached
  (`verifiers_settle_iff`).
-/

import HermesPlatform.Gateway.Audit
import HermesPlatform.Lib.Exceptions
import HermesPlatform.Lib.JsonLoads
import HermesPlatform.Tokens.CapabilityToken

namespace HermesPlatform
namespace Tokens
namespace Totality

open Exceptions Python
open Gateway.Audit (Text text PyFloat PyValue)

/-! ## Exceptions -/

inductive Exc where
  /-- The error of the module itself: CapabilityTokenError, MCPAccessDenied, AccessDenied. -/
  | denied (message : String)
  | valueError
  | unicodeEncodeError
  | unicodeDecodeError
  | binasciiError
  | jsonDecodeError
  | typeError
  | keyError
  | recursionError
  deriving DecidableEq, Repr

/-- The subclasses of ValueError, the errors of the three modules among them. -/
def Exc.isValueError : Exc → Bool
  | .typeError | .keyError | .recursionError => false
  | _ => true

/-- `try: x except (ValueError, …) as exc: raise Denied(message) from exc`.  Every clause names
    ValueError, and the others that it names are subclasses. -/
def guarded {α : Type} (message : String) : Except Exc α → Except Exc α :=
  handled Exc.isValueError (.denied message)

/-! ## Steps -/

/-- What signing and reading rest on. -/
structure PyEnv where
  /-- `hmac.new(key.encode(), message, sha256).digest()`. -/
  hmac : String → List UInt8 → List UInt8
  /-- `bytes.decode(json.detect_encoding(bytes), "surrogatepass")`, where bytes are not all
      ASCII. -/
  decode : List UInt8 → Option Text
  float : Text → PyFloat
  /-- `sys.get_int_max_str_digits()`. -/
  maxDigits : Nat
  /-- The calls within one another that the stack has room for. -/
  room : Nat

def dot : Nat := '.'.toNat

/-- `value.split(separator, n)`. -/
def splitMax (separator : Nat) : Nat → Text → List Text
  | 0, value => [value]
  | n + 1, value =>
      match value.dropWhile (· ≠ separator) with
      | [] => [value]
      | _ :: rest => value.takeWhile (· ≠ separator) :: splitMax separator n rest

/-- `prefix, encoded, signature = token.split(".", 2)`. -/
def unpackToken (token : Text) : Except Exc (Text × Text × Text) :=
  match splitMax dot 2 token with
  | [kind, encoded, signature] => .ok (kind, encoded, signature)
  | _ => .error .valueError

def isAscii (value : Text) : Bool := value.all (· < 128)

/-- `value.encode("ascii")`. -/
def encodeAscii (value : Text) : Except Exc (List UInt8) :=
  if isAscii value then .ok (value.map UInt8.ofNat) else .error .unicodeEncodeError

/-- `base64.b64decode(value, altchars=b"-_", validate=strict)`, or `urlsafe_b64decode(value)`. -/
def b64decode (strict : Bool) (value : Text) : Except Exc (List UInt8) :=
  if isAscii value then
    match Base64.b64decode strict (value.map Char.ofNat) with
    | none => .error .binasciiError
    | some decoded => .ok decoded
  else .error .valueError

/-- `base64.urlsafe_b64encode(value).rstrip(b"=").decode("ascii")`. -/
def base64url (value : List UInt8) : Text := (Base64.base64url value).map Char.toNat

/-- `hmac.compare_digest(a, b)` for strings. -/
def compareDigest (a b : Text) : Except Exc Bool :=
  if isAscii a && isAscii b then .ok (a = b) else .error .typeError

/-- `"=" * (-len(value) % 4)`. -/
def padding (value : Text) : Text := List.replicate ((-(value.length : Int)) % 4).toNat '='.toNat

/-- Decodes a segment and compares it with its encoding.  `handler` is what the decoding stands
    in. -/
def decodeSegment (strict : Bool) (handler : Except Exc (List UInt8) → Except Exc (List UInt8))
    (nonCanonical : Exc) (value : Text) : Except Exc (List UInt8) := do
  let decoded ← handler (b64decode strict (value ++ padding value))
  let same ← compareDigest (base64url decoded) value
  check same nonCanonical
  return decoded

/-- `_base64url_decode` of the backend. -/
def base64urlDecode : Text → Except Exc (List UInt8) :=
  decodeSegment false (guarded "malformed execution capability token encoding")
    (.denied "non-canonical execution capability token encoding")

/-- `_base64url_decode` of the gateway and `_decode` of the PostgreSQL MCP server. -/
def decodeStrict : Text → Except Exc (List UInt8) := decodeSegment true id .valueError

/-- What `json.loads` makes its values with. -/
def builder (env : PyEnv) : JsonLoads.Builder PyValue where
  null := .none
  bool := .bool
  int := .int
  float := fun value => .float (env.float value)
  str := .str
  list := .list
  dict := fun members => .dict (Dict.ofPairs members).entries
  maxDigits := env.maxDigits

/-- The text of the bytes. -/
def decodeText (env : PyEnv) (bytes : List UInt8) : Option Text :=
  if bytes.all fun byte => 0 < byte.toNat && byte.toNat < 128 then some (bytes.map UInt8.toNat)
  else env.decode bytes

/-- A reader is never `exhausted`, by `JsonLoads.load_ne_exhausted`. -/
def ofFault : JsonLoads.Fault → Exc
  | .malformed => .jsonDecodeError
  | .longInteger => .valueError
  | .recursion | .exhausted => .recursionError

/-- `json.loads(bytes)`. -/
def loads (env : PyEnv) (bytes : List UInt8) : Except Exc PyValue :=
  match decodeText env bytes with
  | none => .error .unicodeDecodeError
  | some cs =>
      match JsonLoads.load (builder env) env.room cs with
      | .error fault => .error (ofFault fault)
      | .ok v => .ok v

/-! ## Claims -/

def isStr : PyValue → Bool
  | .str _ => true
  | _ => false

def isList : PyValue → Bool
  | .list _ => true
  | _ => false

/-- `True` and `False` are integers too. -/
def isInt : PyValue → Bool
  | .int _ | .bool _ => true
  | _ => false

/-- `isinstance(claims.get(key), kind)`. -/
def hasKind (claims : Dict Text PyValue) (key : String) (kind : PyValue → Bool) : Bool :=
  match claims.get? (text key) with
  | none => false
  | some v => kind v

/-- `claims[key]`. -/
def item (claims : Dict Text PyValue) (key : String) : Except Exc PyValue :=
  match claims.get? (text key) with
  | none => .error .keyError
  | some v => .ok v

/-- `int(v) <= n`.  What it makes of other values than integers is not looked at. -/
def atMost (v : PyValue) (n : Int) : Except Exc Bool :=
  match v with
  | .int m => .ok (m ≤ n)
  | .bool b => .ok ((if b then 1 else 0) ≤ n)
  | _ => .error .typeError

def requiredClaims : List (String × (PyValue → Bool)) :=
  [("execution_id", isStr), ("agent_id", isStr), ("agent_version_id", isStr), ("runtime_id", isStr),
    ("allowed_bindings", isList), ("resolution_digest", isStr), ("iat", isInt), ("exp", isInt),
    ("jti", isStr)]

/-- What `verify_execution_capability_token` requires of the payload. -/
def executionClaims (payload : PyValue) (current : Int) : Except Exc (Dict Text PyValue) :=
  match payload with
  | .dict members => do
      let claims := Dict.ofPairs members
      check (requiredClaims.all fun r => hasKind claims r.1 r.2)
        (.denied "incomplete execution capability token claims")
      let exp ← item claims "exp"
      let past ← atMost exp current
      check (!past) (.denied "execution capability token expired")
      return claims
  | _ => .error (.denied "invalid execution capability token claims")

/-- `for field in (…): if not isinstance(payload.get(field), str) or not payload[field]`. -/
def requireFields (complaint : String) (claims : Dict Text PyValue) :
    List String → Except Exc Unit
  | [] => .ok ()
  | field :: fields => do
      check (hasKind claims field isStr) (.denied complaint)
      let v ← item claims field
      check (match v with | .str s => s ≠ [] | _ => true) (.denied complaint)
      requireFields complaint claims fields

/-- `allowed_bindings` is a list of strings. -/
def bindingsValid (claims : Dict Text PyValue) : Bool :=
  match claims.get? (text "allowed_bindings") with
  | some (.list items) => items.all isStr
  | _ => false

/-- What the verifiers outside the backend require of the payload. -/
def capabilityClaims (complaints : Complaints) (payload : PyValue) (current : Int) :
    Except Exc (Dict Text PyValue) :=
  match payload with
  | .dict members => do
      let claims := Dict.ofPairs members
      check (hasKind claims "exp" isInt) (.denied complaints.expired)
      let exp ← item claims "exp"
      let past ← atMost exp current
      check (!past) (.denied complaints.expired)
      requireFields complaints.incomplete claims identifierFields
      check (bindingsValid claims) (.denied complaints.bindings)
      return claims
  | _ => .error (.denied complaints.claims)

/-! ## Verifiers -/

def capabilityPrefix : Text := text "cap1"

/-- `f"{prefix}.{encoded}"`. -/
def signedText (kind encoded : Text) : Text := kind ++ dot :: encoded

/-- What each verifier begins with: the payload, the signature and the message that is signed. -/
def readSegments (malformed unsupported : String) (token : Text) :
    Except Exc (Text × Text × List UInt8) := do
  let (kind, encoded, signature) ← guarded malformed (unpackToken token)
  check (kind = capabilityPrefix) (.denied unsupported)
  let message ← encodeAscii (signedText kind encoded)
  return (encoded, signature, message)

/-- `verify_execution_capability_token` of the backend. -/
def verifyExecutionCapabilityToken (env : PyEnv) (key : String) (token : Text) (current : Int) :
    Except Exc (Dict Text PyValue) := do
  let (encoded, signature, message) ← readSegments "malformed execution capability token"
    "unsupported execution capability token" token
  let actual ← base64urlDecode signature
  check (actual = env.hmac key message) (.denied "invalid execution capability token signature")
  let payload ← guarded "invalid execution capability token payload" do
    let bytes ← base64urlDecode encoded
    loads env bytes
  executionClaims payload current

/-- The verifier outside the backend. -/
def verifyToken (complaints : Complaints) (env : PyEnv) (key : String) (token : Text)
    (current : Int) : Except Exc (Dict Text PyValue) := do
  let (encoded, signature, message) ←
    readSegments complaints.malformed complaints.unsupported token
  let (actual, payload) ← guarded complaints.encoding do
    let actual ← decodeStrict signature
    let bytes ← decodeStrict encoded
    let payload ← loads env bytes
    return (actual, payload)
  check (actual = env.hmac key message) (.denied complaints.signature)
  capabilityClaims complaints payload current

/-- `verify_capability_token` of the gateway. -/
def verifyGatewayToken := verifyToken gatewayComplaints

/-- `verify_capability_token` of the PostgreSQL MCP server. -/
def verifyPostgresToken := verifyToken postgresComplaints

/-! ## Segments -/

theorem splitMax_append {separator : Nat} {segment : Text} (h : separator ∉ segment) (n : Nat)
    (rest : Text) : splitMax separator (n + 1) (segment ++ separator :: rest) =
      segment :: splitMax separator n rest := by
  have hall : ∀ c ∈ segment, decide (c ≠ separator) = true := by
    intro c hc
    exact decide_eq_true fun heq => h (heq ▸ hc)
  have hdrop : (separator :: rest).dropWhile (· ≠ separator) = separator :: rest := by simp
  have htake : (separator :: rest).takeWhile (· ≠ separator) = [] := by simp
  rw [splitMax, List.dropWhile_append_of_pos hall, hdrop, List.takeWhile_append_of_pos hall, htake,
    List.append_nil]

theorem splitMax_eq_singleton {separator : Nat} {value : Text} (h : separator ∉ value) (n : Nat) :
    splitMax separator n value = [value] := by
  cases n with
  | zero => rfl
  | succ n =>
      have hdrop : value.dropWhile (· ≠ separator) = [] := by
        rw [List.dropWhile_eq_nil_iff]
        intro c hc
        exact decide_eq_true fun heq => h (heq ▸ hc)
      rw [splitMax, hdrop]

theorem unpackToken_eq_ok {token kind encoded signature : Text} :
    unpackToken token = .ok (kind, encoded, signature) ↔
      token = kind ++ dot :: (encoded ++ dot :: signature) ∧ dot ∉ kind ∧ dot ∉ encoded := by
  constructor
  · intro h
    -- With fewer than two dots there are fewer than three parts.
    by_cases hfirst : dot ∈ token
    · obtain ⟨as, rest, rfl, has⟩ := List.eq_append_cons_of_mem hfirst
      rw [unpackToken, splitMax_append has] at h
      by_cases hsecond : dot ∈ rest
      · obtain ⟨bs, cs, rfl, hbs⟩ := List.eq_append_cons_of_mem hsecond
        rw [splitMax_append hbs, splitMax] at h
        cases h
        exact ⟨rfl, has, hbs⟩
      · rw [splitMax_eq_singleton hsecond] at h
        cases h
    · rw [unpackToken, splitMax_eq_singleton hfirst] at h
      cases h
  · rintro ⟨rfl, hkind, hencoded⟩
    rw [unpackToken, splitMax_append hkind, splitMax_append hencoded, splitMax]

/-! ## What the steps raise -/

/-- Another exception than the module's own. -/
def Exc.Escapes (e : Exc) : Prop := ∀ message, e ≠ .denied message

/-- An exception that no clause catches. -/
def Exc.Uncaught (e : Exc) : Prop := e.isValueError = false

theorem not_escapes_denied (message : String) : ¬ (Exc.denied message).Escapes :=
  fun h => h message rfl

theorem raises_guarded {α : Type} {message : String} {x : Except Exc α} :
    Raises Exc.Escapes (guarded message x) ↔ Raises Exc.Uncaught x := by
  rw [guarded, raises_handled (not_escapes_denied message)]
  constructor
  · rintro ⟨e, he, huncaught, -⟩
    exact ⟨e, he, huncaught⟩
  · rintro ⟨e, he, huncaught⟩
    refine ⟨e, he, huncaught, ?_⟩
    rintro m rfl
    cases huncaught

theorem unpackToken_caught (token : Text) : ¬ Raises Exc.Uncaught (unpackToken token) := by
  rw [unpackToken]
  split
  · exact raises_ok _
  · rw [raises_error]
    rintro ⟨⟩

theorem b64decode_caught (strict : Bool) (value : Text) :
    ¬ Raises Exc.Uncaught (b64decode strict value) := by
  rw [b64decode]
  repeat' split
  all_goals
    first
    | exact raises_ok _
    | rw [raises_error]
      rintro ⟨⟩

theorem isAscii_of_b64decode {strict : Bool} {value : Text} {decoded : List UInt8}
    (h : b64decode strict value = .ok decoded) : isAscii value = true := by
  rw [b64decode] at h
  split at h
  next hascii => exact hascii
  next => cases h

theorem isAscii_append (a b : Text) : isAscii (a ++ b) = (isAscii a && isAscii b) :=
  List.all_append

theorem isAscii_base64url (value : List UInt8) : isAscii (base64url value) = true := by
  rw [isAscii, base64url, List.all_eq_true]
  intro c hc
  obtain ⟨d, hd, rfl⟩ := List.mem_map.mp hc
  exact decide_eq_true (Base64.ascii_of_isUrlsafe (Base64.isUrlsafe_base64url hd))

theorem isAscii_padding (value : Text) : isAscii (padding value) = true := by
  rw [isAscii, padding, List.all_eq_true]
  intro c hc
  rw [List.eq_of_mem_replicate hc]
  rfl

theorem map_ofNat_base64url (value : List UInt8) :
    (base64url value).map Char.ofNat = Base64.base64url value := by
  have hsame : ∀ c ∈ Base64.base64url value, (Char.ofNat ∘ Char.toNat) c = id c :=
    fun c _ => Char.ofNat_toNat c
  rw [base64url, List.map_map, List.map_congr_left hsame, List.map_id]

theorem b64decode_base64url (strict : Bool) (value : List UInt8) :
    b64decode strict (base64url value ++ padding (base64url value)) = .ok value := by
  have hascii : isAscii (base64url value ++ padding (base64url value)) = true := by
    rw [isAscii_append, isAscii_base64url, isAscii_padding]
    rfl
  have hpadding : (padding (base64url value)).map Char.ofNat =
      Base64.padding (Base64.base64url value) := by
    rw [padding, Base64.padding, List.map_replicate, base64url, List.length_map]
    rfl
  rw [b64decode, if_pos hascii, List.map_append, map_ofNat_base64url, hpadding,
    Base64.base64url_append_padding, Base64.b64decode_urlsafeB64encode]

theorem compareDigest_eq_ok {a b : Text} {same : Bool} (h : compareDigest a b = .ok same) :
    same = decide (a = b) := by
  rw [compareDigest] at h
  split at h
  · cases h
    rfl
  · cases h

section Segment

variable {strict : Bool} {handler : Except Exc (List UInt8) → Except Exc (List UInt8)}
  {nonCanonical : Exc} {value : Text}

/-- A segment is decoded just when it is the encoding of the bytes. -/
theorem decodeSegment_eq_ok (hhandler : ∀ x a, handler x = .ok a ↔ x = .ok a)
    {bytes : List UInt8} :
    decodeSegment strict handler nonCanonical value = .ok bytes ↔ value = base64url bytes := by
  constructor
  · intro h
    obtain ⟨decoded, -, h⟩ := bind_eq_ok.mp h
    obtain ⟨same, hcompare, h⟩ := bind_eq_ok.mp h
    obtain ⟨hsame, h⟩ := check_bind_eq_ok.mp h
    cases h
    rw [compareDigest_eq_ok hcompare, decide_eq_true_eq] at hsame
    exact hsame.symm
  · rintro rfl
    have hcompare : compareDigest (base64url bytes) (base64url bytes) = .ok true := by
      rw [compareDigest, if_pos (by rw [isAscii_base64url]; rfl), decide_eq_true rfl]
    rw [decodeSegment, (hhandler _ bytes).mpr (b64decode_base64url strict bytes)]
    exact bind_eq_ok.mpr ⟨bytes, rfl, bind_eq_ok.mpr ⟨true, hcompare, rfl⟩⟩

/-- A segment that is decoded is ASCII, so the comparison has no TypeError. -/
theorem decodeSegment_caught {P : Exc → Prop} (hhandler : ∀ x a, handler x = .ok a ↔ x = .ok a)
    (hraise : ¬ Raises P (handler (b64decode strict (value ++ padding value))))
    (hcanonical : ¬ P nonCanonical) :
    ¬ Raises P (decodeSegment strict handler nonCanonical value) := by
  intro h
  obtain h | ⟨decoded, hdecoded, h⟩ := raises_bind.mp h
  · exact hraise h
  have hascii := isAscii_of_b64decode ((hhandler _ _).mp hdecoded)
  rw [isAscii_append, Bool.and_eq_true] at hascii
  obtain h | ⟨same, -, h⟩ := raises_bind.mp h
  · rw [compareDigest, if_pos (by rw [isAscii_base64url, hascii.1]; rfl)] at h
    exact raises_ok _ h
  · exact raises_pure _ ((raises_check hcanonical).mp h).2

end Segment

theorem base64urlDecode_eq_ok {value : Text} {bytes : List UInt8} :
    base64urlDecode value = .ok bytes ↔ value = base64url bytes :=
  decodeSegment_eq_ok fun _ _ => handled_eq_ok

theorem decodeStrict_eq_ok {value : Text} {bytes : List UInt8} :
    decodeStrict value = .ok bytes ↔ value = base64url bytes :=
  decodeSegment_eq_ok fun _ _ => Iff.rfl

/-- The backend's decoder raises its denials only. -/
theorem base64urlDecode_denied (value : Text) : ¬ Raises Exc.Escapes (base64urlDecode value) := by
  refine decodeSegment_caught (fun _ _ => handled_eq_ok) ?_ (not_escapes_denied _)
  rw [raises_guarded]
  exact b64decode_caught false _

theorem base64urlDecode_caught (value : Text) : ¬ Raises Exc.Uncaught (base64urlDecode value) := by
  rintro ⟨e, he, huncaught⟩
  refine base64urlDecode_denied value ⟨e, he, ?_⟩
  rintro message rfl
  cases huncaught

theorem decodeStrict_caught (value : Text) : ¬ Raises Exc.Uncaught (decodeStrict value) :=
  decodeSegment_caught (fun _ _ => Iff.rfl) (b64decode_caught true _) (by rintro ⟨⟩)

/-! ## The payload -/

/-- `json.loads` raises no exception but its RecursionError that a clause does not catch. -/
theorem loads_uncaught_iff (env : PyEnv) (bytes : List UInt8) :
    Raises Exc.Uncaught (loads env bytes) ↔
      ∃ cs, decodeText env bytes = some cs ∧ env.room < JsonLoads.nesting (builder env) cs := by
  rw [loads]
  cases htext : decodeText env bytes with
  | none =>
      simp only [raises_error]
      constructor
      · rintro ⟨⟩
      · rintro ⟨cs, ⟨⟩, -⟩
  | some cs =>
      have hroom := JsonLoads.load_recursion_iff (builder env) env.room cs
      have hends := JsonLoads.load_ne_exhausted (builder env) env.room cs
      have hdeep : (∃ cs', some cs = some cs' ∧ env.room < JsonLoads.nesting (builder env) cs') ↔
          env.room < JsonLoads.nesting (builder env) cs := by simp
      rw [hdeep, ← hroom]
      simp only
      cases hload : JsonLoads.load (builder env) env.room cs with
      | ok v => exact ⟨fun h => absurd h (raises_ok v), by rintro ⟨⟩⟩
      | error fault =>
          rw [raises_error, Except.error.injEq]
          cases fault with
          | exhausted => exact absurd hload hends
          | recursion => exact ⟨fun _ => rfl, fun _ => rfl⟩
          | malformed | longInteger => exact ⟨by rintro ⟨⟩, by rintro ⟨⟩⟩

theorem item_of_hasKind {claims : Dict Text PyValue} {key : String} {kind : PyValue → Bool}
    (h : hasKind claims key kind = true) : ∃ v, item claims key = .ok v ∧ kind v = true := by
  rw [hasKind] at h
  cases hget : claims.get? (text key) with
  | none =>
      rw [hget] at h
      cases h
  | some v =>
      rw [hget] at h
      exact ⟨v, by rw [item, hget], h⟩

theorem atMost_of_isInt {v : PyValue} (h : isInt v = true) (n : Int) :
    ∃ past, atMost v n = .ok past := by
  cases v with
  | int m => exact ⟨_, rfl⟩
  | bool b => exact ⟨_, rfl⟩
  | none | float _ | str _ | list _ | dict _ => cases h

/-- The look at `exp`, which is an integer there. -/
theorem raises_of_expiry {α : Type} {claims : Dict Text PyValue} {current : Int}
    {complaint : String} {x : Except Exc α} (hint : hasKind claims "exp" isInt = true)
    (h : Raises Exc.Escapes (do
      let exp ← item claims "exp"
      let past ← atMost exp current
      check (!past) (.denied complaint)
      x)) : Raises Exc.Escapes x := by
  obtain ⟨exp, hexp, hexpint⟩ := item_of_hasKind hint
  obtain ⟨past, hpast⟩ := atMost_of_isInt hexpint current
  obtain h | ⟨exp', hexp', h⟩ := raises_bind.mp h
  · rw [hexp] at h
    exact absurd h (raises_ok _)
  rw [hexp] at hexp'
  cases hexp'
  obtain h | ⟨past', -, h⟩ := raises_bind.mp h
  · rw [hpast] at h
    exact absurd h (raises_ok _)
  exact ((raises_check (not_escapes_denied _)).mp h).2

theorem requireFields_denied (complaint : String) (claims : Dict Text PyValue)
    (fields : List String) : ¬ Raises Exc.Escapes (requireFields complaint claims fields) := by
  induction fields with
  | nil => exact raises_ok ()
  | cons field fields ih =>
      intro h
      obtain ⟨hkind, h⟩ := (raises_check (not_escapes_denied _)).mp h
      -- The field is a string, so looking it up has no KeyError.
      obtain ⟨v, hv, -⟩ := item_of_hasKind hkind
      obtain h | ⟨v', -, h⟩ := raises_bind.mp h
      · rw [hv] at h
        exact raises_ok _ h
      · exact ih ((raises_check (not_escapes_denied _)).mp h).2

theorem executionClaims_denied (payload : PyValue) (current : Int) :
    ¬ Raises Exc.Escapes (executionClaims payload current) := by
  cases payload with
  | dict members =>
      intro h
      obtain ⟨hkinds, h⟩ := (raises_check (not_escapes_denied _)).mp h
      rw [List.all_eq_true] at hkinds
      have hint : hasKind (Dict.ofPairs members) "exp" isInt = true :=
        hkinds ("exp", isInt) (by simp [requiredClaims])
      exact raises_pure _ (raises_of_expiry hint h)
  | none | bool _ | int _ | float _ | str _ | list _ =>
      exact fun h => not_escapes_denied _ ((raises_error _).mp h)

theorem capabilityClaims_denied (complaints : Complaints) (payload : PyValue) (current : Int) :
    ¬ Raises Exc.Escapes (capabilityClaims complaints payload current) := by
  cases payload with
  | dict members =>
      intro h
      obtain ⟨hint, h⟩ := (raises_check (not_escapes_denied _)).mp h
      obtain h | ⟨-, -, h⟩ := raises_bind.mp (raises_of_expiry hint h)
      · exact requireFields_denied _ _ _ h
      · exact raises_pure _ ((raises_check (not_escapes_denied _)).mp h).2
  | none | bool _ | int _ | float _ | str _ | list _ =>
      exact fun h => not_escapes_denied _ ((raises_error _).mp h)

/-! ## Totality -/

/-- The verifier returns claims or raises the denial of its module. -/
def Settles (result : Except Exc (Dict Text PyValue)) : Prop :=
  (∃ claims, result = .ok claims) ∨ ∃ message, result = .error (.denied message)

theorem settles_iff {result : Except Exc (Dict Text PyValue)} :
    Settles result ↔ ¬ Raises Exc.Escapes result := by
  cases result with
  | ok claims => exact ⟨fun _ => raises_ok claims, fun _ => .inl ⟨claims, rfl⟩⟩
  | error e =>
      rw [raises_error]
      constructor
      · rintro (⟨claims, ⟨⟩⟩ | ⟨message, ⟨⟩⟩)
        exact not_escapes_denied message
      · intro h
        obtain ⟨message, hmessage⟩ := not_forall_not.mp h
        exact .inr ⟨message, congrArg Except.error hmessage⟩

/-- The token is `cap1`, `encoded` and `signature`. -/
def Segments (token encoded signature : Text) : Prop :=
  token = capabilityPrefix ++ dot :: (encoded ++ dot :: signature) ∧ dot ∉ encoded

/-- The segment encodes a JSON text that is nested more deeply than there is room for. -/
def TooDeep (env : PyEnv) (encoded : Text) : Prop :=
  ∃ bytes cs, encoded = base64url bytes ∧ decodeText env bytes = some cs ∧
    env.room < JsonLoads.nesting (builder env) cs

/-- The token comes to a step that stands in no `try`: its payload is not ASCII, or the payload
    is `opened` and nested too deeply. -/
def Unguarded (env : PyEnv) (opened : Text → Text → Prop) (token : Text) : Prop :=
  ∃ encoded signature, Segments token encoded signature ∧
    (isAscii encoded = false ∨ opened encoded signature ∧ TooDeep env encoded)

/-- The backend opens a payload that is signed. -/
def Signed (env : PyEnv) (key : String) (encoded signature : Text) : Prop :=
  signature =
    base64url (env.hmac key ((signedText capabilityPrefix encoded).map UInt8.ofNat))

/-- The others open every payload with a signature that can be decoded. -/
def Decodable (_ signature : Text) : Prop := ∃ bytes, signature = base64url bytes

theorem isAscii_signedText {kind encoded : Text} :
    isAscii (signedText kind encoded) = (isAscii kind && isAscii encoded) := by
  have hdot (value : Text) : isAscii (dot :: value) = isAscii value := rfl
  rw [signedText, isAscii_append, hdot]

theorem raises_encodeAscii {value : Text} :
    Raises Exc.Escapes (encodeAscii value) ↔ isAscii value = false := by
  rw [encodeAscii]
  cases isAscii value with
  | true => exact ⟨fun h => absurd h (raises_ok _), by rintro ⟨⟩⟩
  | false => exact ⟨fun _ => rfl, fun _ => ⟨_, rfl, by rintro message ⟨⟩⟩⟩

/-- What a verifier has read where it comes to the payload. -/
theorem segments_of_unpackToken {token encoded signature : Text} :
    unpackToken token = .ok (capabilityPrefix, encoded, signature) ↔
      Segments token encoded signature := by
  have hprefix : dot ∉ capabilityPrefix := by decide
  rw [unpackToken_eq_ok, Segments]
  exact ⟨fun h => ⟨h.1, h.2.2⟩, fun h => ⟨h.1, hprefix, h.2⟩⟩

theorem encodeAscii_signedText {encoded : Text} (h : isAscii encoded = true) :
    encodeAscii (signedText capabilityPrefix encoded) =
      .ok ((signedText capabilityPrefix encoded).map UInt8.ofNat) := by
  rw [encodeAscii, if_pos]
  rw [isAscii_signedText, h]
  rfl

theorem raises_readSegments_iff {malformed unsupported : String} {token : Text} :
    Raises Exc.Escapes (readSegments malformed unsupported token) ↔
      ∃ encoded signature, Segments token encoded signature ∧ isAscii encoded = false := by
  constructor
  · intro h
    obtain h | ⟨⟨kind, encoded, signature⟩, hunpack, h⟩ := raises_bind.mp h
    · rw [raises_guarded] at h
      exact absurd h (unpackToken_caught token)
    obtain ⟨hkind, hrest⟩ := (raises_check (not_escapes_denied _)).mp h
    obtain rfl := of_decide_eq_true hkind
    refine ⟨encoded, signature, segments_of_unpackToken.mp (handled_eq_ok.mp hunpack), ?_⟩
    obtain hencode | ⟨message, -, hreturn⟩ := raises_bind.mp hrest
    · rw [raises_encodeAscii, isAscii_signedText, Bool.and_eq_false_iff] at hencode
      exact hencode.resolve_left (by decide)
    · exact absurd hreturn (raises_pure _)
  · rintro ⟨encoded, signature, hsegments, hascii⟩
    have hunpack := segments_of_unpackToken.mpr hsegments
    refine raises_bind.mpr (.inr ⟨_, handled_eq_ok.mpr hunpack, ?_⟩)
    refine (raises_check (not_escapes_denied _)).mpr ⟨decide_eq_true rfl, ?_⟩
    refine raises_bind.mpr (.inl (raises_encodeAscii.mpr ?_))
    rw [isAscii_signedText, hascii, Bool.and_false]

theorem readSegments_eq_ok {malformed unsupported : String} {token encoded signature : Text}
    {message : List UInt8} :
    readSegments malformed unsupported token = .ok (encoded, signature, message) ↔
      Segments token encoded signature ∧ isAscii encoded = true ∧
        message = (signedText capabilityPrefix encoded).map UInt8.ofNat := by
  constructor
  · intro h
    obtain ⟨⟨kind, encoded', signature'⟩, hunpack, h⟩ := bind_eq_ok.mp h
    obtain ⟨hkind, hrest⟩ := check_bind_eq_ok.mp h
    obtain rfl := of_decide_eq_true hkind
    obtain ⟨message', hencode, hreturn⟩ := bind_eq_ok.mp hrest
    cases hreturn
    refine ⟨segments_of_unpackToken.mp (handled_eq_ok.mp hunpack), ?_⟩
    cases hascii : isAscii encoded with
    | true =>
        rw [encodeAscii_signedText hascii] at hencode
        cases hencode
        exact ⟨rfl, rfl⟩
    | false =>
        rw [encodeAscii, isAscii_signedText, hascii, Bool.and_false] at hencode
        cases hencode
  · rintro ⟨hsegments, hascii, rfl⟩
    have hunpack := segments_of_unpackToken.mpr hsegments
    refine bind_eq_ok.mpr ⟨_, handled_eq_ok.mpr hunpack, ?_⟩
    refine check_bind_eq_ok.mpr ⟨decide_eq_true rfl, ?_⟩
    exact bind_eq_ok.mpr ⟨_, encodeAscii_signedText hascii, rfl⟩

theorem TooDeep.isAscii {env : PyEnv} {encoded : Text} (h : TooDeep env encoded) :
    isAscii encoded = true := by
  obtain ⟨bytes, -, rfl, -⟩ := h
  exact isAscii_base64url bytes

theorem raises_execution_iff (env : PyEnv) (key : String) (token : Text) (current : Int) :
    Raises Exc.Escapes (verifyExecutionCapabilityToken env key token current) ↔
      Unguarded env (Signed env key) token := by
  constructor
  · intro h
    obtain h | ⟨⟨encoded, signature, message⟩, hread, h⟩ := raises_bind.mp h
    · obtain ⟨encoded, signature, hsegments, hascii⟩ := raises_readSegments_iff.mp h
      exact ⟨encoded, signature, hsegments, .inl hascii⟩
    obtain ⟨hsegments, -, rfl⟩ := readSegments_eq_ok.mp hread
    obtain h | ⟨actual, hactual, h⟩ := raises_bind.mp h
    · exact absurd h (base64urlDecode_denied signature)
    obtain ⟨hsame, hpayload⟩ := (raises_check (not_escapes_denied _)).mp h
    rw [base64urlDecode_eq_ok, of_decide_eq_true hsame] at hactual
    -- What is left are the payload, and its claims.
    obtain h | ⟨payload, -, h⟩ := raises_bind.mp hpayload
    · rw [raises_guarded] at h
      obtain h | ⟨bytes, hbytes, h⟩ := raises_bind.mp h
      · exact absurd h (base64urlDecode_caught encoded)
      · obtain ⟨cs, htext, hdeep⟩ := (loads_uncaught_iff env bytes).mp h
        exact ⟨encoded, signature, hsegments,
          .inr ⟨hactual, bytes, cs, base64urlDecode_eq_ok.mp hbytes, htext, hdeep⟩⟩
    · exact absurd h (executionClaims_denied payload current)
  · rintro ⟨encoded, signature, hsegments, hascii | ⟨hsigned, hdeep⟩⟩
    · exact raises_bind.mpr
        (.inl (raises_readSegments_iff.mpr ⟨encoded, signature, hsegments, hascii⟩))
    · have hascii := hdeep.isAscii
      obtain ⟨bytes, cs, hencoded, htext, hroom⟩ := hdeep
      have hloads := (loads_uncaught_iff env bytes).mpr ⟨cs, htext, hroom⟩
      refine raises_bind.mpr (.inr ⟨_, readSegments_eq_ok.mpr ⟨hsegments, hascii, rfl⟩, ?_⟩)
      refine raises_bind.mpr (.inr ⟨_, base64urlDecode_eq_ok.mpr hsigned, ?_⟩)
      refine (raises_check (not_escapes_denied _)).mpr ⟨decide_eq_true rfl, ?_⟩
      refine raises_bind.mpr (.inl (raises_guarded.mpr ?_))
      exact raises_bind.mpr (.inr ⟨bytes, base64urlDecode_eq_ok.mpr hencoded, hloads⟩)

theorem raises_verifyToken_iff (complaints : Complaints) (env : PyEnv) (key : String)
    (token : Text) (current : Int) :
    Raises Exc.Escapes (verifyToken complaints env key token current) ↔
      Unguarded env Decodable token := by
  constructor
  · intro h
    obtain h | ⟨⟨encoded, signature, message⟩, hread, h⟩ := raises_bind.mp h
    · obtain ⟨encoded, signature, hsegments, hascii⟩ := raises_readSegments_iff.mp h
      exact ⟨encoded, signature, hsegments, .inl hascii⟩
    obtain ⟨hsegments, -, -⟩ := readSegments_eq_ok.mp hread
    obtain h | ⟨⟨actual, payload⟩, -, h⟩ := raises_bind.mp h
    · -- The payload is read in the `try`, before the signatures are compared.
      rw [raises_guarded] at h
      obtain h | ⟨actual, hactual, h⟩ := raises_bind.mp h
      · exact absurd h (decodeStrict_caught signature)
      obtain h | ⟨bytes, hbytes, h⟩ := raises_bind.mp h
      · exact absurd h (decodeStrict_caught encoded)
      obtain h | ⟨payload, -, h⟩ := raises_bind.mp h
      · obtain ⟨cs, htext, hdeep⟩ := (loads_uncaught_iff env bytes).mp h
        exact ⟨encoded, signature, hsegments, .inr ⟨⟨actual, decodeStrict_eq_ok.mp hactual⟩,
          bytes, cs, decodeStrict_eq_ok.mp hbytes, htext, hdeep⟩⟩
      · exact absurd h (raises_pure _)
    · have hclaims := ((raises_check (not_escapes_denied _)).mp h).2
      exact absurd hclaims (capabilityClaims_denied complaints payload current)
  · rintro ⟨encoded, signature, hsegments, hascii | ⟨⟨actual, hactual⟩, hdeep⟩⟩
    · exact raises_bind.mpr
        (.inl (raises_readSegments_iff.mpr ⟨encoded, signature, hsegments, hascii⟩))
    · have hascii := hdeep.isAscii
      obtain ⟨bytes, cs, hencoded, htext, hroom⟩ := hdeep
      refine raises_bind.mpr (.inr ⟨_, readSegments_eq_ok.mpr ⟨hsegments, hascii, rfl⟩, ?_⟩)
      refine raises_bind.mpr (.inl (raises_guarded.mpr ?_))
      refine raises_bind.mpr (.inr ⟨actual, decodeStrict_eq_ok.mpr hactual, ?_⟩)
      refine raises_bind.mpr (.inr ⟨bytes, decodeStrict_eq_ok.mpr hencoded, ?_⟩)
      exact raises_bind.mpr (.inl ((loads_uncaught_iff env bytes).mpr ⟨cs, htext, hroom⟩))

/-- **Totality.**  A verifier returns claims or denies the token, on every string, just when the
    token does not come to a step that stands in no `try`. -/
theorem verifiers_settle_iff (env : PyEnv) (key : String) (token : Text) (current : Int) :
    (Settles (verifyExecutionCapabilityToken env key token current) ↔
      ¬ Unguarded env (Signed env key) token) ∧
    (Settles (verifyGatewayToken env key token current) ↔ ¬ Unguarded env Decodable token) ∧
    (Settles (verifyPostgresToken env key token current) ↔ ¬ Unguarded env Decodable token) := by
  refine ⟨?_, ?_, ?_⟩
  · rw [settles_iff, raises_execution_iff]
  · rw [settles_iff, verifyGatewayToken, raises_verifyToken_iff]
  · rw [settles_iff, verifyPostgresToken, raises_verifyToken_iff]

/-- A service with an interpreter that has room for a thousand calls. -/
def sampleEnv : PyEnv where
  hmac := fun _ message => message
  decode := fun _ => none
  float := fun _ => .nan
  maxDigits := 4300
  room := 1000

/-- The payload of this token is not ASCII. -/
def accentedToken : Text := text "cap1.é.x"

/-- Every verifier raises a UnicodeEncodeError on it. -/
theorem accentedToken_escapes :
    verifyExecutionCapabilityToken sampleEnv "key" accentedToken 0 = .error .unicodeEncodeError ∧
    verifyGatewayToken sampleEnv "key" accentedToken 0 = .error .unicodeEncodeError ∧
    verifyPostgresToken sampleEnv "key" accentedToken 0 = .error .unicodeEncodeError ∧
    ¬ (Settles (verifyExecutionCapabilityToken sampleEnv "key" accentedToken 0) ∧
      Settles (verifyGatewayToken sampleEnv "key" accentedToken 0) ∧
      Settles (verifyPostgresToken sampleEnv "key" accentedToken 0)) := by
  have hexecution : verifyExecutionCapabilityToken sampleEnv "key" accentedToken 0 =
      .error .unicodeEncodeError := by rfl
  refine ⟨hexecution, by rfl, by rfl, ?_⟩
  rw [hexecution, settles_iff]
  rintro ⟨h, -⟩
  exact h ⟨_, rfl, by rintro message ⟨⟩⟩

end Totality
end Tokens
end HermesPlatform
