/-
  HermesPlatform.Snapshots.Validation

  Which agent snapshots are accepted: `validate_agent_snapshot`
  (`app.repositories.production`) with the tests that it calls, on capability profiles,
  runtime configs, JSON schemas and prompt templates.

  `Accepted` says what the functions that read a snapshot later rely on.
-/

import HermesPlatform.Gateway.Policy
import HermesPlatform.Lib.JsonDict

namespace HermesPlatform
namespace Snapshots

open Gateway (truthy)
open Json (asDict asList)
open Python (Dict bind_eq_ok forEach isSpace strip)

/-- What the functions use of Python and of `jsonschema`. -/
structure SnapshotPython where
  /-- `str` of a value that is no string. -/
  repr : Json → String
  /-- `int`; `none` where it raises. -/
  int : Json → Option Int
  /-- `str(UUID(text))`; `none` where it raises. -/
  uuid : String → Option String
  lower : String → String
  /-- What `Draft202012Validator.check_schema` complains of. -/
  checkSchema : Json → Option String

def SnapshotPython.str (py : SnapshotPython) : Json → String
  | .string s => s
  | v => py.repr v

/-- A `ValueError`, or any other exception. -/
inductive SnapshotError where
  | value (message : String)
  | other
deriving DecidableEq, Repr

def check (ok : Bool) (message : String) : Except SnapshotError Unit :=
  if ok then .ok () else .error (.value message)

/-- `v or default`, as a string. -/
def textOr (py : SnapshotPython) (v : Option Json) (default : String) : String :=
  match v.filter truthy with
  | some v => py.str v
  | none => default

/-- `", ".join(sorted(names))`. -/
def joinNames (names : List String) : String := ", ".intercalate (names.insertionSort (· ≤ ·))

def isArray : Json → Bool
  | .array _ => true
  | _ => false

def isObject : Json → Bool
  | .object _ => true
  | _ => false

def isString : Json → Bool
  | .string _ => true
  | _ => false

def isStringArray : Json → Bool
  | .array items => items.all isString
  | _ => false

/-- `v in options`, where `options` is a set of strings. -/
def isOneOf (options : List String) : Json → Except SnapshotError Bool
  | .string s => .ok (decide (s ∈ options))
  | .array _ | .object _ => .error .other
  | _ => .ok false

/-! ## Capability profiles -/

inductive RuntimeType where
  | hermes
  | pi
  | deepseek
deriving DecidableEq, Repr

def RuntimeType.text : RuntimeType → String
  | .hermes => "hermes"
  | .pi => "pi"
  | .deepseek => "deepseek"

/-- The value in `RUNTIME_TYPES`, if it is there. -/
def RuntimeType.read (v : Json) : Option RuntimeType :=
  [hermes, pi, deepseek].find? fun runtimeType =>
    match v with
    | .string s => s = runtimeType.text
    | _ => false

inductive WorkspaceType where
  | document
  | repository
deriving DecidableEq, Repr

def WorkspaceType.text : WorkspaceType → String
  | .document => "document"
  | .repository => "repository"

def WorkspaceType.read (v : Json) : Option WorkspaceType :=
  [document, repository].find? fun workspaceType =>
    match v with
    | .string s => s = workspaceType.text
    | _ => false

structure CapabilityProfile where
  workspaceType : WorkspaceType
  requiredTools : List String
  artifactTypes : List String
deriving DecidableEq, Repr

def CapabilityProfile.toJson (profile : CapabilityProfile) : Json :=
  .object
    [("workspace_type", .string profile.workspaceType.text),
      ("required_tools", .array (profile.requiredTools.map .string)),
      ("artifact_types", .array (profile.artifactTypes.map .string))]

def capabilityNames : List String := ["filesystem", "database"]

def artifactTypes : List String :=
  ["text", "json", "markdown", "pdf", "xlsx", "code_patch", "git_diff", "test_report"]

def defaultCapabilityProfile : RuntimeType → CapabilityProfile
  | .deepseek => ⟨.repository, [], ["code_patch", "git_diff", "test_report"]⟩
  | .hermes | .pi => ⟨.document, [], ["text", "json", "markdown", "pdf", "xlsx"]⟩

/-- `_string_list`. -/
def stringList (py : SnapshotPython) (value : Json) (field : String) :
    Except SnapshotError (List String) :=
  if isStringArray value then
    .ok (((asList (some value)).map fun item => strip (py.str item)).filterMap fun item =>
      if item = "" then none else some (py.lower item))
  else .error (.value ("capability_profile." ++ field ++ " must be a string array"))

/-- The strings of one field, all of which have to be known. -/
def knownStrings (py : SnapshotPython) (source : Dict String Json) (field : String)
    (default known : List String) (complaint : String) : Except SnapshotError (List String) := do
  let items ← stringList py ((source.get? field).getD (.array (default.map .string))) field
  let invalid := items.eraseDups.filter (· ∉ known)
  check (invalid = []) ("capability_profile contains unsupported " ++ complaint ++ ": " ++
    joinNames invalid)
  return items.eraseDups

def normalizeCapabilityProfile (py : SnapshotPython) (value : Json) (runtimeType : RuntimeType) :
    Except SnapshotError CapabilityProfile :=
  match if truthy value then value else .object [] with
  | .object members => do
      let source := Dict.ofPairs members
      let unknown := source.keys.filter (· ∉ ["workspace_type", "required_tools", "artifact_types"])
      check (unknown = []) ("capability_profile contains unsupported fields: " ++ joinNames unknown)
      let defaults := defaultCapabilityProfile runtimeType
      match WorkspaceType.read
          ((source.get? "workspace_type").getD (.string defaults.workspaceType.text)) with
      | none =>
          .error (.value "capability_profile.workspace_type must be document or repository")
      | some workspaceType =>
          check (runtimeType ≠ .deepseek ∨ workspaceType = .repository)
            "DeepSeek Runtime requires a repository workspace"
          let requiredTools ← knownStrings py source "required_tools" defaults.requiredTools
            capabilityNames "tools"
          let artifacts ← knownStrings py source "artifact_types" defaults.artifactTypes
            artifactTypes "artifact types"
          return ⟨workspaceType, requiredTools, artifacts⟩
  | _ => .error (.value "capability_profile must be an object")

/-! ## Runtime configs -/

def forbiddenParts : List String :=
  ["apikey", "authorization", "bearer", "credential", "credentials", "password", "secret"]

/-- The words of a key between what is no letter and no digit. -/
def keyWords (py : SnapshotPython) (key : String) : List (List Char) :=
  ((py.lower key).toList.splitOnP fun c => !(c.isDigit || ('a' ≤ c && c ≤ 'z'))).filter (· ≠ [])

def namesCredential (py : SnapshotPython) (key : String) : Bool :=
  let words := keyWords py key
  words.any (fun word => String.ofList word ∈ forbiddenParts) ||
    (forbiddenParts ++ ["token"]).any fun suffix => suffix.toList.isSuffixOf words.flatten

mutual
/-- A key of a dict at any depth names a credential. -/
def holdsCredential (py : SnapshotPython) : Json → Bool
  | .object members => holdsCredentialMembers py members
  | .array items => holdsCredentialItems py items
  | _ => false
def holdsCredentialItems (py : SnapshotPython) : List Json → Bool
  | [] => false
  | v :: rest => holdsCredential py v || holdsCredentialItems py rest
def holdsCredentialMembers (py : SnapshotPython) : List (String × Json) → Bool
  | [] => false
  | (key, v) :: rest =>
      namesCredential py key || holdsCredential py v || holdsCredentialMembers py rest
end

/-- `validate_runtime_config`, with `validate_public_runtime_config`. -/
def validateRuntimeConfig (py : SnapshotPython) (value : Json) : Except SnapshotError Unit := do
  check (((asDict (some value)).get? "runtime_id").all fun runtimeId =>
      (runtimeId matches .null) || (py.uuid (py.str runtimeId)).isSome)
    "runtime_config.runtime_id must be a UUID"
  check (!holdsCredential py value)
    "Runtime config must not contain credentials; use environment secrets"

/-! ## JSON schemas -/

def typeMap : List String := ["string", "number", "integer", "boolean", "array", "object"]

/-- `all(item in options for item in items)`, which stops at the first that is not. -/
def allOneOf (options : List String) : List Json → Except SnapshotError Bool
  | [] => .ok true
  | v :: rest => do
      let known ← isOneOf options v
      if known then allOneOf options rest else .ok false

/-- `is_full_schema`. -/
def isFullSchema (value : Dict String Json) : Except SnapshotError Bool := do
  let isSchemaType ← match value.get? "type" with
    | some (.string declared) => pure (decide (declared ∈ typeMap))
    | some (.array declared) =>
        if declared = [] then pure false else allOneOf ("null" :: typeMap) declared
    | _ => pure false
  return isSchemaType ||
    ["$schema", "$ref", "$defs", "properties", "allOf", "anyOf", "oneOf", "not"].any
      (· ∈ value.keys)

/-- The properties and the required fields of a short schema. -/
def expandFields (fields : List (String × Json)) :
    Except SnapshotError (List (String × Json) × List String) :=
  Python.foldEach (fun acc (key, definition) =>
    match definition with
    | .string type => .ok (acc.1 ++ [(key, .object [("type", .string type)])], acc.2)
    | .object members =>
        let required := ((Dict.ofPairs members).get? "required").any truthy
        .ok (acc.1 ++ [(key, .object (members.filter (·.1 ≠ "required")))],
          if required then acc.2 ++ [key] else acc.2)
    | _ => .error (.value ("schema field " ++ key ++ " must be a type string or object")))
    ([], []) fields

def normalizeSchema (py : SnapshotPython) (value : Dict String Json) :
    Except SnapshotError Json := do
  if value.entries = [] then return .object []
  else
    let full ← isFullSchema value
    let schema ← if full then pure (Json.object value.entries)
      else do
        let (properties, required) ← expandFields value.entries
        pure (.object
          ([("type", .string "object"), ("properties", .object properties),
              ("additionalProperties", .bool false)] ++
            if required = [] then [] else [("required", .array (required.map .string))]))
    match py.checkSchema schema with
    | some complaint => .error (.value ("invalid JSON Schema: " ++ complaint))
    | none => .ok schema

/-! ## Prompt templates -/

def isIdentifierStart (c : Char) : Bool := c.isAlpha || c = '_'

def isIdentifierChar (c : Char) : Bool := c.isAlphanum || c = '_' || c = '.' || c = '-'

/-- `VARIABLE_PATTERN` at the beginning: the name, and what comes after the variable. -/
def matchVariable : List Char → Option (List Char × List Char)
  | '{' :: '{' :: cs =>
      let cs := cs.dropWhile isSpace
      if cs.head?.any isIdentifierStart then
        match (cs.dropWhile isIdentifierChar).dropWhile isSpace with
        | '}' :: '}' :: rest => some (cs.takeWhile isIdentifierChar, rest)
        | _ => none
      else none
  | _ => none

/-- The variables of a template, and the text without them. -/
def scanTemplate : Nat → List Char → List (List Char) × List Char
  | 0, cs => ([], cs)
  | _ + 1, [] => ([], [])
  | fuel + 1, c :: cs =>
      match matchVariable (c :: cs) with
      | some (name, rest) =>
          let scanned := scanTemplate fuel rest
          (name :: scanned.1, scanned.2)
      | none =>
          let scanned := scanTemplate fuel cs
          (scanned.1, c :: scanned.2)

/-- The character stands twice in a row. -/
def hasPair (c : Char) : List Char → Bool
  | a :: b :: rest => (a = c && b = c) || hasPair c (b :: rest)
  | _ => false

def validatePromptTemplate (template : String)
    (inputSchema : Dict String Json) : Except SnapshotError Unit := do
  let (names, unresolved) := scanTemplate template.length template.toList
  check (!(hasPair '{' unresolved || hasPair '}' unresolved))
    "prompt_template contains an invalid template expression"
  -- `check_schema` has seen to it that the properties are a dict.
  let allowed := (asDict (inputSchema.get? "properties")).keys ++
    ["input", "agent_id", "model", "current_time"]
  let roots := names.map fun name => String.ofList (name.takeWhile (· ≠ '.'))
  let unknown := roots.eraseDups.filter (· ∉ allowed)
  check (unknown = []) ("prompt_template variables are not declared by input_schema: " ++
    joinNames unknown)

/-! ## `validate_agent_snapshot` -/

/-- `int(snapshot.get("format_version") or default)`. -/
def formatVersion (py : SnapshotPython) (snapshot : Dict String Json) (default : Int) :
    Option Int :=
  match (snapshot.get? "format_version").filter truthy with
  | some version => py.int version
  | none => some default

/-- The fields that all snapshots have. -/
def validateShape (snapshot : Dict String Json) : Except SnapshotError Unit := do
  forEach (fun field => check ((snapshot.get? field).any isObject)
    ("Agent Version snapshot " ++ field ++ " must be an object"))
    ["prompt", "model", "schema", "runtime"]
  forEach (fun field => check ((snapshot.get? field).any isStringArray)
    ("Agent Version snapshot " ++ field ++ " must be a string array")) ["skill_ids", "mcp_ids"]

/-- The fields of the second format. -/
def validateFormat2 (snapshot : Dict String Json) (version : Int) : Except SnapshotError Unit :=
  if version ≠ 2 then .ok ()
  else do
    forEach (fun field => check ((snapshot.get? field).all isArray)
      ("Agent Version snapshot " ++ field ++ " must be an array"))
      ["skills", "capability_bindings", "resource_scope_revisions", "policy_set_revisions"]
    check (((asDict (snapshot.get? "runtime")).get? "required_features").all isStringArray)
      "Agent Version runtime.required_features must be a string array"
    check ((snapshot.get? "resolution_digest").all fun resolutionDigest =>
        match resolutionDigest with
        | .null => true
        | .string s => s.startsWith "sha256:"
        | _ => false)
      "Agent Version resolution_digest is invalid"

def validateTexts (py : SnapshotPython) (prompt model : Dict String Json) :
    Except SnapshotError Unit := do
  check (strip (textOr py (prompt.get? "system_prompt") "") ≠ "")
    "Agent Version system_prompt is required"
  check (strip (textOr py (prompt.get? "prompt_template") "") ≠ "")
    "Agent Version prompt_template is required"
  check (strip (textOr py (model.get? "name") "") ≠ "") "Agent Version model name is required"
  let adapter ← isOneOf ["hermes", "qwen", "deepseek", "gpt", "claude"]
    ((model.get? "adapter").getD .null)
  check adapter "Agent Version model adapter is invalid"

def validateRuntime (py : SnapshotPython) (runtime : Dict String Json) :
    Except SnapshotError Unit := do
  let responseMode ← isOneOf ["sync", "stream"] ((runtime.get? "response_mode").getD .null)
  check responseMode "Agent Version response_mode is invalid"
  let runtimeType := (runtime.get? "runtime_type").getD (.string "hermes")
  let known ← isOneOf ["hermes", "pi", "deepseek"] runtimeType
  check known "Agent Version runtime_type is invalid"
  check ((runtime.get? "runtime_id").all fun runtimeId =>
      (runtimeId matches .null) || (py.uuid (py.str runtimeId)).isSome)
    "Agent Version runtime_id is invalid"
  let runtimeConfig := (runtime.get? "runtime_config").getD (.object [])
  check (isObject runtimeConfig) "Agent Version runtime_config is invalid"
  validateRuntimeConfig py runtimeConfig
  match RuntimeType.read runtimeType with
  | none => .error .other
  | some runtimeType => do
      let _ ← normalizeCapabilityProfile py
        ((runtime.get? "capability_profile").getD (.object [])) runtimeType
      return ()

def validateAgentSnapshot (py : SnapshotPython) (snapshot : Dict String Json) :
    Except SnapshotError Unit :=
  match formatVersion py snapshot 0 with
  | none => .error .other
  | some version => do
      check (version = 1 ∨ version = 2) "Agent Version snapshot format_version must be 1 or 2"
      validateShape snapshot
      validateFormat2 snapshot version
      let prompt := asDict (snapshot.get? "prompt")
      validateTexts py prompt (asDict (snapshot.get? "model"))
      validateRuntime py (asDict (snapshot.get? "runtime"))
      let schema := asDict (snapshot.get? "schema")
      let inputSchema := asDict (schema.get? "input_schema")
      let _ ← normalizeSchema py inputSchema
      let _ ← normalizeSchema py (asDict (schema.get? "output_schema"))
      validatePromptTemplate (textOr py (prompt.get? "prompt_template") "") inputSchema

/-! ## What is accepted -/

/-- What the readers of an accepted snapshot rely on. -/
structure Accepted (py : SnapshotPython) (snapshot : Dict String Json) : Prop where
  format : formatVersion py snapshot 1 = some 1 ∨ formatVersion py snapshot 1 = some 2
  skillIds : (snapshot.get? "skill_ids").any isStringArray = true
  mcpIds : (snapshot.get? "mcp_ids").any isStringArray = true
  systemPrompt : ((asDict (snapshot.get? "prompt")).get? "system_prompt").any truthy = true
  promptTemplate : ((asDict (snapshot.get? "prompt")).get? "prompt_template").any truthy = true
  runtimeId : ((asDict (snapshot.get? "runtime")).get? "runtime_id").all
    (fun v => (v matches .null) || (py.uuid (py.str v)).isSome) = true

variable {py : SnapshotPython} {snapshot : Dict String Json}

@[simp] theorem check_eq_ok {ok : Bool} {message : String} {u : Unit} :
    check ok message = .ok u ↔ ok = true := by
  cases ok with
  | true => exact iff_of_true rfl rfl
  | false => exact iff_of_false (by rintro ⟨⟩) Bool.false_ne_true

/-- A text that is not blank is a true value. -/
theorem truthy_of_not_blank {v : Option Json} (h : strip (textOr py v "") ≠ "") :
    v.any truthy = true := by
  cases v with
  | none => exact absurd rfl h
  | some v =>
      cases htruthy : truthy v with
      | true => exact htruthy
      | false =>
          rw [textOr, Option.filter_some_neg htruthy] at h
          exact absurd rfl h

theorem formatVersion_default {version : Int} (h : formatVersion py snapshot 0 = some version)
    (hversion : version = 1 ∨ version = 2) : formatVersion py snapshot 1 = some version := by
  unfold formatVersion at h ⊢
  cases hvalue : (snapshot.get? "format_version").filter truthy with
  | none =>
      rw [hvalue] at h
      cases h
      rcases hversion with h | h <;> cases h
  | some value =>
      rw [hvalue] at h
      exact h

theorem accepted_of_validate {u : Unit} (h : validateAgentSnapshot py snapshot = .ok u) :
    Accepted py snapshot := by
  unfold validateAgentSnapshot at h
  cases hformat : formatVersion py snapshot 0 with
  | none =>
      rw [hformat] at h
      cases h
  | some version =>
      rw [hformat] at h
      simp only [bind_eq_ok, check_eq_ok, decide_eq_true_eq] at h
      obtain ⟨_, hversion, _, hshape, _, -, _, htexts, _, hruntime, -⟩ := h
      simp only [validateShape, validateTexts, validateRuntime, bind_eq_ok, check_eq_ok,
        decide_eq_true_eq] at hshape htexts hruntime
      obtain ⟨_, -, harrays⟩ := hshape
      have harray : ∀ field ∈ ["skill_ids", "mcp_ids"],
          (snapshot.get? field).any isStringArray = true := fun field hfield =>
        check_eq_ok.mp (Python.forEach_eq_ok.mp harrays field hfield)
      obtain ⟨_, hsystem, _, htemplate, -⟩ := htexts
      obtain ⟨_, -, _, -, _, -, _, -, _, hruntimeId, -⟩ := hruntime
      have hformat' := formatVersion_default hformat hversion
      exact {
        format := hversion.imp (fun h => by rw [hformat', h]) fun h => by rw [hformat', h]
        skillIds := harray _ List.mem_cons_self
        mcpIds := harray _ (.tail _ List.mem_cons_self)
        systemPrompt := truthy_of_not_blank hsystem
        promptTemplate := truthy_of_not_blank htemplate
        runtimeId := hruntimeId }

end Snapshots
end HermesPlatform
