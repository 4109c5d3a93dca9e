/-
  HermesPlatform.Gateway.Policy

  Parameters on their way to the provider: `_apply_policy`, which checks the
  arguments of the caller and sets the fields that the gateway owns, and
  `_map_request`, which renames them for the connector operation.

  `str.lower`, `str` of a value that is no string, and `in`, `>` and `<` of
  Python values are parameters.
-/

import HermesPlatform.Lib.Json
import HermesPlatform.Lib.Python

namespace HermesPlatform
namespace Gateway

open Python

/-- A `GatewayError`. -/
structure GatewayError where
  code : String
  message : String
deriving DecidableEq, Repr

/-- The answer to any other exception. -/
def internalError : GatewayError := ⟨"INTERNAL_ERROR", "Capability Gateway 内部错误"⟩

/-- A `parameter_policy`; a key that is missing is an empty list or dictionary. -/
structure ParameterPolicy where
  forbiddenFields : List String
  requiredFields : List String
  allowedValues : List (String × Json)
  maximum : List (String × Json)
  minimum : List (String × Json)
  fixed : Dict String Json
  injectedFields : Dict String Json

/-- A `request_mapping`; `fields` and `fixed` are empty where they are no
    dictionaries, and `scopeTarget` is `null` where it is missing. -/
structure RequestMapping where
  fields : Dict String Json
  drop : List String
  fixed : Dict String Json
  scopeTarget : Json

/-- What the functions use of Python's values; `none` where it raises. -/
structure PythonValues where
  lower : String → String
  /-- `str` of a value that is no string. -/
  repr : Json → String
  isIn : Json → Json → Option Bool
  greater : Json → Json → Option Bool
  less : Json → Json → Option Bool

/-- For names in lower case, and no values that are compared. -/
def plainValues : PythonValues where
  lower := fun name => name
  repr := fun _ => ""
  isIn := fun _ _ => none
  greater := fun _ _ => none
  less := fun _ _ => none

/-- Whether a value is true. -/
def truthy : Json → Bool
  | .null => false
  | .bool b => b
  | .int n => n ≠ 0
  | .float f => f.text ≠ "0.0".toList && f.text ≠ "-0.0".toList
  | .string s => s ≠ ""
  | .array items => !items.isEmpty
  | .object members => !members.isEmpty

def PythonValues.str (py : PythonValues) : Json → String
  | .string s => s
  | v => py.repr v

/-! ## `_protected_paths` -/

def protectedFields : List String :=
  ["endpoint", "credential_ref", "connector_instance_id", "implementation_id", "resource_scope",
    "access_token", "api_key"]

/-- `str(key).lower() in {name.lower() for name in forbidden}`. -/
def isForbidden (py : PythonValues) (forbidden : List String) (key : String) : Bool :=
  py.lower key ∈ forbidden.map py.lower

def memberPath (path key : String) : String := if path ≠ "" then path ++ "." ++ key else key

mutual
/-- The paths of the forbidden keys in a value, in the order in which they are
    found. -/
def protectedPaths (py : PythonValues) (forbidden : List String) : Json → String → List String
  | .object members, path => protectedMembers py forbidden members path
  | .array items, path => protectedItems py forbidden items 0 path
  | _, _ => []
def protectedItems (py : PythonValues) (forbidden : List String) :
    List Json → Nat → String → List String
  | [], _, _ => []
  | v :: rest, index, path =>
      protectedPaths py forbidden v (path ++ "[" ++ toString index ++ "]") ++
        protectedItems py forbidden rest (index + 1) path
def protectedMembers (py : PythonValues) (forbidden : List String) :
    List (String × Json) → String → List String
  | [], _ => []
  | (key, v) :: rest, path =>
      (if isForbidden py forbidden key then [memberPath path key] else []) ++
        protectedPaths py forbidden v (memberPath path key) ++ protectedMembers py forbidden rest path
end

/-! ## `_apply_policy` -/

def checkForbidden (py : PythonValues) (forbidden : List String) (args : Dict String Json) :
    Except GatewayError Unit :=
  let present := protectedPaths py forbidden (.object args.entries) ""
  if present ≠ [] then
    .error ⟨"PERMISSION_DENIED",
      "禁止传入参数：" ++ ", ".intercalate (present.dedup.insertionSort (· ≤ ·))⟩
  else .ok ()

def checkRequired (args : Dict String Json) (field : String) : Except GatewayError Unit :=
  if field ∈ args.keys then .ok () else .error ⟨"INVALID_ARGUMENT", "缺少必填参数 " ++ field⟩

/-- A check of one field against a bound of the policy: `violates` compares the
    value with the bound. -/
def checkField (violates : Json → Json → Option Bool) (complaint : String) (args : Dict String Json)
    (entry : String × Json) : Except GatewayError Unit :=
  match args.get? entry.1 with
  | none => .ok ()
  | some v =>
      match violates v entry.2 with
      | none => .error internalError
      | some true => .error ⟨"PERMISSION_DENIED", "参数 " ++ entry.1 ++ " " ++ complaint⟩
      | some false => .ok ()

theorem checkForbidden_ok {py : PythonValues} {forbidden : List String} {args : Dict String Json} :
    checkForbidden py forbidden args = .ok () ↔
      protectedPaths py forbidden (.object args.entries) "" = [] := by
  simp only [checkForbidden]
  split <;> simp_all

theorem checkRequired_ok {args : Dict String Json} {field : String} :
    checkRequired args field = .ok () ↔ field ∈ args.keys := by
  simp only [checkRequired]
  split <;> simp_all

theorem checkField_ok {violates : Json → Json → Option Bool} {complaint : String}
    {args : Dict String Json} {entry : String × Json} :
    checkField violates complaint args entry = .ok () ↔
      ∀ v, args.get? entry.1 = some v → violates v entry.2 = some false := by
  simp only [checkField]
  cases args.get? entry.1 with
  | none => simp
  | some v =>
      simp only [Option.some.injEq, forall_eq']
      rcases violates v entry.2 with _ | _ | _ <;> simp

/-- `value not in choices`. -/
def PythonValues.notIn (py : PythonValues) (v choices : Json) : Option Bool :=
  (py.isIn v choices).map (!·)

/-- The resource scope is set where it is true. -/
def setScope (scope : Option (Dict String Json)) (value : Dict String Json) : Dict String Json :=
  match scope with
  | some s => if s.entries ≠ [] then value.set "resource_scope" (.object s.entries) else value
  | none => value

/-- `_apply_policy` on a policy whose rules have the documented shape; `Capabilities`
    has it on a policy of any shape. -/
def applyPolicy (py : PythonValues) (args : Dict String Json) (policy : ParameterPolicy)
    (scope : Option (Dict String Json)) : Except GatewayError (Dict String Json) := do
  checkForbidden py (protectedFields ++ policy.forbiddenFields) args
  forEach (checkRequired args) policy.requiredFields
  forEach (checkField py.notIn "不在允许范围" args) policy.allowedValues
  forEach (checkField py.greater "超过上限" args) policy.maximum
  forEach (checkField py.less "低于下限" args) policy.minimum
  let value := args.update policy.fixed.entries
  let value := value.update policy.injectedFields.entries
  pure (setScope scope value)

/-- The checks let a caller give this value to the field. -/
structure ParameterPolicy.Admits (py : PythonValues) (policy : ParameterPolicy) (key : String)
    (v : Json) : Prop where
  permitted : protectedMembers py (protectedFields ++ policy.forbiddenFields) [(key, v)] "" = []
  allowed : ∀ entry ∈ policy.allowedValues, entry.1 = key → py.notIn v entry.2 = some false
  maximum : ∀ entry ∈ policy.maximum, entry.1 = key → py.greater v entry.2 = some false
  minimum : ∀ entry ∈ policy.minimum, entry.1 = key → py.less v entry.2 = some false

theorem protectedMembers_eq_nil_iff {py : PythonValues} {forbidden : List String}
    {members : List (String × Json)} {path : String} :
    protectedMembers py forbidden members path = [] ↔
      ∀ m ∈ members, protectedMembers py forbidden [m] path = [] := by
  induction members with
  | nil => simp [protectedMembers]
  | cons m rest ih =>
      obtain ⟨key, v⟩ := m
      rw [List.forall_mem_cons, ← ih, protectedMembers, List.append_eq_nil_iff, protectedMembers,
        protectedMembers, List.append_nil]

theorem forEach_checkField_ok {violates : Json → Json → Option Bool} {complaint : String}
    {args : Dict String Json} {entries : List (String × Json)} :
    forEach (checkField violates complaint args) entries = .ok () ↔
      ∀ arg ∈ args.entries, ∀ entry ∈ entries, entry.1 = arg.1 →
        violates arg.2 entry.2 = some false := by
  rw [forEach_eq_ok]
  simp only [checkField_ok]
  constructor
  · intro h arg harg entry hentry hkey
    exact h entry hentry arg.2 (hkey ▸ Dict.get?_of_mem harg)
  · intro h entry hentry v hv
    exact h (entry.1, v) (Dict.mem_of_get? hv) entry hentry rfl

/-- **Accepted arguments**: the required fields are there, and each argument passes the checks. -/
theorem applyPolicy_accepts_iff {py : PythonValues} {args : Dict String Json}
    {policy : ParameterPolicy} {scope : Option (Dict String Json)} :
    (∃ value, applyPolicy py args policy scope = .ok value) ↔
      (∀ field ∈ policy.requiredFields, field ∈ args.keys) ∧
        ∀ arg ∈ args.entries, policy.Admits py arg.1 arg.2 := by
  have hrequired : forEach (checkRequired args) policy.requiredFields = .ok () ↔
      ∀ field ∈ policy.requiredFields, field ∈ args.keys := by
    rw [forEach_eq_ok]
    exact forall₂_congr fun _ _ => checkRequired_ok
  have hforbidden : checkForbidden py (protectedFields ++ policy.forbiddenFields) args = .ok () ↔
      ∀ arg ∈ args.entries,
        protectedMembers py (protectedFields ++ policy.forbiddenFields) [arg] "" = [] := by
    rw [checkForbidden_ok, protectedPaths, protectedMembers_eq_nil_iff]
  constructor
  · rintro ⟨value, h⟩
    obtain ⟨⟨⟩, hpermitted, h⟩ := bind_eq_ok.mp h
    obtain ⟨⟨⟩, hfields, h⟩ := bind_eq_ok.mp h
    obtain ⟨⟨⟩, hallowed, h⟩ := bind_eq_ok.mp h
    obtain ⟨⟨⟩, hmaximum, h⟩ := bind_eq_ok.mp h
    obtain ⟨⟨⟩, hminimum, -⟩ := bind_eq_ok.mp h
    rw [forEach_checkField_ok] at hallowed hmaximum hminimum
    exact ⟨hrequired.mp hfields, fun arg harg => ⟨hforbidden.mp hpermitted arg harg,
      hallowed arg harg, hmaximum arg harg, hminimum arg harg⟩⟩
  · rintro ⟨hfields, hadmits⟩
    exact ⟨_, bind_eq_ok.mpr ⟨(), hforbidden.mpr fun arg harg => (hadmits arg harg).permitted,
      bind_eq_ok.mpr ⟨(), hrequired.mpr hfields,
      bind_eq_ok.mpr ⟨(), forEach_checkField_ok.mpr fun arg harg => (hadmits arg harg).allowed,
      bind_eq_ok.mpr ⟨(), forEach_checkField_ok.mpr fun arg harg => (hadmits arg harg).maximum,
      bind_eq_ok.mpr ⟨(), forEach_checkField_ok.mpr fun arg harg => (hadmits arg harg).minimum,
      rfl⟩⟩⟩⟩⟩⟩

/-! ## `_map_request` -/

/-- `str(fields.get(key) or key)`. -/
def RequestMapping.name (py : PythonValues) (mapping : RequestMapping) (key : String) : String :=
  match mapping.fields.get? key with
  | some v => if truthy v then py.str v else key
  | none => key

/-- The argument is sent. -/
def RequestMapping.sends (mapping : RequestMapping) (key : String) : Bool :=
  key ≠ "resource_scope" && key ∉ mapping.drop

/-- `str(scope_target)`, where it is true. -/
def RequestMapping.target (py : PythonValues) (mapping : RequestMapping) : Option String :=
  if truthy mapping.scopeTarget then some (py.str mapping.scopeTarget) else none

/-- `value is not None`. -/
def isNotNone : Json → Bool
  | .null => false
  | _ => true

/-- `d.get(key)`, where it is not `None`. -/
def getValue (d : Dict String Json) (key : String) : Option Json := (d.get? key).filter isNotNone

/-- `_map_request`. -/
def mapRequest (py : PythonValues) (args : Dict String Json) (mapping : RequestMapping) :
    Dict String Json :=
  let value := Dict.ofPairs
    ((args.entries.filter fun e => mapping.sends e.1).map fun e => (mapping.name py e.1, e.2))
  let value := value.update mapping.fixed.entries
  match mapping.target py, getValue args "resource_scope" with
  | some target, some scope => value.set target scope
  | _, _ => value

/-- The last of the entries that are sent under a name. -/
def RequestMapping.lastSent (py : PythonValues) (mapping : RequestMapping)
    (entries : List (String × Json)) (name : String) : Option Json :=
  Dict.lastValue ((entries.filter fun e => mapping.sends e.1).map
    fun e => (mapping.name py e.1, e.2)) name

/-- What is sent under the name on behalf of the scope. -/
def RequestMapping.scopeAt (py : PythonValues) (mapping : RequestMapping) (scope : Option Json)
    (name : String) : Option Json :=
  if mapping.target py = some name then scope else none

/-- **Precedence.**  Under a name stands the scope, or else the fixed field of the mapping, or
    else the last argument that is renamed to it. -/
theorem get?_mapRequest (py : PythonValues) (args : Dict String Json) (mapping : RequestMapping)
    (name : String) :
    (mapRequest py args mapping).get? name =
      (mapping.scopeAt py (getValue args "resource_scope") name).or
        ((mapping.fixed.get? name).or (mapping.lastSent py args.entries name)) := by
  have hmapped : ∀ n, ((Dict.ofPairs ((args.entries.filter fun e => mapping.sends e.1).map
      fun e => (mapping.name py e.1, e.2))).update mapping.fixed.entries).get? n =
      (mapping.fixed.get? n).or (mapping.lastSent py args.entries n) := by
    intro n
    rw [Dict.get?_update_dict, Dict.get?_ofPairs, RequestMapping.lastSent]
  rw [mapRequest, RequestMapping.scopeAt]
  cases htarget : mapping.target py with
  | none => simpa using hmapped name
  | some target =>
      cases hvalue : getValue args "resource_scope" with
      | none => simpa using hmapped name
      | some s =>
          simp only [Dict.get?_set, hmapped]
          by_cases hname : name = target
          · subst hname
            simp
          · have hne : ¬ some target = some name := by
              rintro ⟨rfl⟩
              exact hname rfl
            rw [if_neg hname, if_neg hne, Option.none_or]

end Gateway
end HermesPlatform
